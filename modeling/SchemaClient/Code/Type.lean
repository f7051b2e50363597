/-!
# TypeScript types

The types that a client module writes: keywords, names, string literals, arrays, unions and
object types with documented members. Absence is expressed by a `null` among the alternatives of
a union.
-/

namespace SchemaClient.Code

/-- The types written as a keyword. -/
inductive Primitive where
  | string
  | number
  | boolean
  | null
  | unknown
  | never
deriving DecidableEq, Repr, Inhabited

/-- The keyword of a primitive type. -/
def Primitive.keyword : Primitive → String
  | .string => "string"
  | .number => "number"
  | .boolean => "boolean"
  | .null => "null"
  | .unknown => "unknown"
  | .never => "never"

/-- All primitive types. -/
def Primitive.all : List Primitive :=
  [.string, .number, .boolean, .null, .unknown, .never]

mutual

/-- A type. -/
inductive Ty where
  | prim (p : Primitive)
  | ref (name : String)
  | literal (text : String)
  | array (item : Ty)
  | union (alternatives : List Ty)
  | object (members : List Member)

/-- A member of an interface or of an object type. -/
inductive Member where
  | mk (name : String) (type : Ty) (optional : Bool) (doc : Option String)

end

instance : Inhabited Ty := ⟨.prim .unknown⟩

instance : Inhabited Member := ⟨.mk "" default false none⟩

namespace Member

def name : Member → String
  | .mk n _ _ _ => n

def type : Member → Ty
  | .mk _ t _ _ => t

def optional : Member → Bool
  | .mk _ _ o _ => o

def doc : Member → Option String
  | .mk _ _ _ d => d

/-- A member that must be present. -/
def required (name : String) (type : Ty) (doc : Option String) : Member :=
  .mk name type false doc

end Member

namespace Ty

mutual

/-- Whether `null` is among the alternatives of a type. -/
def isNullable : Ty → Bool
  | .prim p => p == .null
  | .union ts => anyNullable ts
  | _ => false

/-- Whether `null` is among the alternatives of one of the types. -/
def anyNullable : List Ty → Bool
  | [] => false
  | t :: ts => t.isNullable || anyNullable ts

end

/-- The type with `null` admitted: a nullable type is left alone, and a union takes `null` as its
last alternative. -/
def nullable (t : Ty) : Ty :=
  if t.isNullable then t
  else match t with
    | .union ts => .union (ts ++ [.prim .null])
    | t => .union [t, .prim .null]

/-- Whether a type is written with alternatives at its top. -/
def isUnion : Ty → Bool
  | .union _ => true
  | _ => false

theorem anyNullable_eq_any (ts : List Ty) : anyNullable ts = ts.any isNullable := by
  induction ts with
  | nil => simp [anyNullable]
  | cons t ts ih => simp [anyNullable, ih]

theorem nullable_of_isNullable {t : Ty} (h : t.isNullable = true) : t.nullable = t := by
  simp [nullable, h]

end Ty

end SchemaClient.Code
