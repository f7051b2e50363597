import SchemaClient.Text.Space
import SchemaClient.Text.Replace
import SchemaClient.Code.Comment
import SchemaClient.Code.Declaration

/-!
# Printing declarations

The text of each part of a client module at a level of indentation, two spaces a level. An array
of alternatives stands in parentheses, since `[]` binds closer than `|`.
-/

namespace SchemaClient.Code

open SchemaClient.Text (indent replaceAll)

/-- The characters of a string literal that stand for a text: a backslash before each quote and
each backslash. -/
def escapeLiteral : List Char → List Char
  | [] => []
  | c :: cs => if c = '"' ∨ c = '\\' then '\\' :: c :: escapeLiteral cs else c :: escapeLiteral cs

/-- The string literal of a text, in double quotes. -/
def quote (text : String) : String :=
  "\"" ++ String.ofList (escapeLiteral text.toList) ++ "\""

mutual

/-- The text of a type; `level` is that of the line it stands on. -/
def Ty.print (level : Nat) : Ty → String
  | .prim p => p.keyword
  | .ref n => n
  | .literal text => quote text
  | .array t => (if t.isUnion then "(" ++ t.print level ++ ")" else t.print level) ++ "[]"
  | .union ts => Ty.printAlternatives level ts
  | .object [] => "\x7b\x7d"
  | .object (m :: ms) => "\x7b\n" ++ Member.printAll (level + 1) (m :: ms) ++ indent level ++ "\x7d"

/-- The alternatives of a union; without any, the type without values. -/
def Ty.printAlternatives (level : Nat) : List Ty → String
  | [] => Primitive.never.keyword
  | t :: ts => t.print level ++ Ty.printFurther level ts

/-- The alternatives of a union after the first. -/
def Ty.printFurther (level : Nat) : List Ty → String
  | [] => ""
  | t :: ts => " | " ++ t.print level ++ Ty.printFurther level ts

/-- The lines of a member, its comment first. -/
def Member.print (level : Nat) : Member → String
  | .mk name type optional doc =>
    Comment.optional (indent level) doc ++ indent level ++ name ++
      (if optional then "?" else "") ++ ": " ++ type.print level ++ ";\n"

/-- The lines of members in order. -/
def Member.printAll (level : Nat) : List Member → String
  | [] => ""
  | m :: ms => m.print level ++ Member.printAll level ms

end

/-- The clause that names the bases of an interface. -/
def printBases (bases : List String) : String :=
  if bases.isEmpty then "" else " extends " ++ ", ".intercalate bases

/-- The text of a declaration, its comment first. -/
def Declaration.print (level : Nat) (d : Declaration) : String :=
  let pad := indent level
  Comment.optional pad d.doc ++ match d.shape with
    | .interface bases members =>
      pad ++ "export interface " ++ d.name ++ printBases bases ++ " \x7b\n" ++
        Member.printAll (level + 1) members ++ pad ++ "\x7d\n"
    | .alias t => pad ++ "export type " ++ d.name ++ " = " ++ t.print level ++ ";\n"

/-- The text of a parameter. -/
def Parameter.print (level : Nat) (p : Parameter) : String :=
  p.name ++ ": " ++ p.type.print level

/-- The characters of a template literal that stand for a text: backslashes, then backticks, then
dollar signs that a brace follows get a backslash in front. -/
def escapeTemplate (cs : List Char) : List Char :=
  replaceAll ['$', '\x7b'] ['\\', '$', '\x7b']
    (replaceAll ['\x60'] ['\\', '\x60'] (replaceAll ['\\'] ['\\', '\\'] cs))

/-- The text of a piece of a template literal. -/
def TemplatePart.print : TemplatePart → String
  | .text s => String.ofList (escapeTemplate s.toList)
  | .value n => "$\x7b" ++ n ++ "\x7d"

/-- The text of a route function; its documentation stands in the registry. -/
def RouteFunction.print (level : Nat) (f : RouteFunction) : String :=
  let pad := indent level
  pad ++ "function " ++ f.name ++ "(" ++ ", ".intercalate (f.parameters.map (·.print level)) ++
    "): string \x7b\n" ++ pad ++ "  return `" ++ String.join (f.template.map TemplatePart.print) ++
    "`;\n" ++ pad ++ "\x7d\n"

/-- The lines of a registry entry, its comment first. -/
def RegistryEntry.print (level : Nat) (e : RegistryEntry) : String :=
  Comment.optional (indent level) e.doc ++ indent level ++ e.name ++ ",\n"

/-- The text of the registry. -/
def Registry.print (level : Nat) (r : Registry) : String :=
  let pad := indent level
  let opening := pad ++ "export const " ++ Registry.constantName ++ " = \x7b"
  if r.entries.isEmpty then opening ++ "\x7d;\n"
  else opening ++ "\n" ++ String.join (r.entries.map (·.print (level + 1))) ++ pad ++ "\x7d;\n"

end SchemaClient.Code
