import SchemaClient.Code.Type

/-!
# Type expressions

A schema names types by texts such as `Option<Vec<u64>>`. A table of rules gives each text its
TypeScript type: some names stand for a primitive, some wrappers for a construction on what they
wrap, and every other text is a reference to a declaration of that name.
-/

namespace SchemaClient.Schema.TypeExpr

open SchemaClient.Code

/-- The names of the integer types. -/
def integerNames : List String :=
  ["u8", "u16", "u32", "u64", "u128", "usize", "i8", "i16", "i32", "i64", "i128", "isize"]

/-- A class of names that stand for a primitive type. -/
inductive Atom where
  | exact (name : String)
  | integer
deriving DecidableEq, Repr

/-- Whether a text belongs to a class of names. -/
def Atom.holds (e : List Char) : Atom → Bool
  | .exact name => e == name.toList
  | .integer => integerNames.any (·.toList == e)

/-- What a wrapper makes of the type it wraps. -/
inductive Wrapper where
  | nullable
  | transparent
  | array
deriving DecidableEq, Repr

/-- The type made from the wrapped one. -/
def Wrapper.apply (t : Ty) : Wrapper → Ty
  | .nullable => t.nullable
  | .transparent => t
  | .array => .array t

/-- A rule of the table. -/
inductive Rule where
  | atom (atom : Atom) (primitive : Primitive)
  | wrapper (name : String) (wrapper : Wrapper)
deriving DecidableEq, Repr

/-- The rules in the order in which they are tried. -/
def rules : List Rule :=
  [.atom (.exact "String") .string,
   .atom (.exact "bool") .boolean,
   .atom .integer .number,
   .wrapper "Option" .nullable,
   .atom (.exact "TempFile") .unknown,
   .wrapper "Box" .transparent,
   .atom (.exact "IpAddr") .string,
   .wrapper "Vec" .array]

/-- Whether the angle brackets of a text are balanced, `depth` of them being open in front of it. -/
def balanced (depth : Nat) : List Char → Bool
  | [] => depth == 0
  | c :: cs =>
    if c = '<' then balanced (depth + 1) cs
    else if c = '>' then 0 < depth && balanced (depth - 1) cs
    else balanced depth cs

/-- The text after a beginning, if it begins so. -/
def dropStart? : List Char → List Char → Option (List Char)
  | [], cs => some cs
  | _ :: _, [] => none
  | p :: ps, c :: cs => if p = c then dropStart? ps cs else none

/-- The text in front of a last `>`, if there is one. -/
def dropClosing? : List Char → Option (List Char)
  | [] => none
  | [c] => if c = '>' then some [] else none
  | c :: d :: cs => (dropClosing? (d :: cs)).map (c :: ·)

/-- What stands between the angle brackets of `name<…>`, if it is not empty and balanced. -/
def unwrap? (name : String) (e : List Char) : Option (List Char) :=
  ((dropStart? (name.toList ++ ['<']) e).bind dropClosing?).filter
    fun inner => !inner.isEmpty && balanced 0 inner

theorem length_dropStart? {ps cs rest : List Char} (h : dropStart? ps cs = some rest) :
    cs.length = ps.length + rest.length := by
  induction ps generalizing cs with
  | nil => simp_all [dropStart?]
  | cons p ps ih =>
    cases cs with
    | nil => simp [dropStart?] at h
    | cons c cs =>
      simp only [dropStart?] at h
      split at h
      · simp [ih h]
        omega
      · simp at h

theorem length_dropClosing? {cs inner : List Char} (h : dropClosing? cs = some inner) :
    cs.length = inner.length + 1 := by
  fun_induction dropClosing? cs generalizing inner with
  | case1 => simp at h
  | case2 => simp_all
  | case3 => simp at h
  | case4 c d cs ih =>
    obtain ⟨u, hu, rfl⟩ := Option.map_eq_some_iff.1 h
    simp [ih hu]

theorem length_lt_of_unwrap? {name : String} {e inner : List Char}
    (h : unwrap? name e = some inner) : inner.length < e.length := by
  rw [unwrap?, Option.filter_eq_some_iff, Option.bind_eq_some_iff] at h
  obtain ⟨⟨rest, hr, hi⟩, -⟩ := h
  have h₁ := length_dropStart? hr
  have h₂ := length_dropClosing? hi
  omega

/-- What a rule says about a text that it applies to: the primitive type of the text, or a wrapper
and the shorter text that it wraps. -/
inductive Reading (e : List Char) where
  | primitive (p : Primitive)
  | wrapped (w : Wrapper) (inner : List Char) (shorter : inner.length < e.length)

/-- What a rule says about a text, if it applies. -/
def Rule.reading? (e : List Char) : Rule → Option (Reading e)
  | .atom a p => if a.holds e then some (.primitive p) else none
  | .wrapper name w =>
    match h : unwrap? name e with
    | some inner => some (.wrapped w inner (length_lt_of_unwrap? h))
    | none => none

/-- The type of a text under the first rule that applies; without one, the text is a reference. -/
def typeOfChars (e : List Char) : Ty :=
  match rules.findSome? (Rule.reading? e) with
  | some (.primitive p) => .prim p
  | some (.wrapped w inner _) => w.apply (typeOfChars inner)
  | none => .ref (String.ofList e)
termination_by e.length

/-- The type that a type expression stands for. -/
def typeOf (e : String) : Ty :=
  typeOfChars e.toList

end SchemaClient.Schema.TypeExpr
