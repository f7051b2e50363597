import SchemaClient.Json.Printer
import SchemaClient.Text.Space

/-!
# The layout for people

Every entry of an object and every item of an array stands on a line of its own. An entry or item
that holds further ones is followed by their lines, indented by two spaces. Keys and values may
be coloured.
-/

namespace SchemaClient.Report

open SchemaClient.Text (indent)

/-- What a coloured text is. -/
inductive Role where
  | key
  | string
  | number
  | truth
  /-- A value that holds nothing. -/
  | faint
deriving DecidableEq, Repr

/-- The parameters of the escape code that begins a role's colour. -/
def Role.code : Role → String
  | key => "1;34"
  | string => "32"
  | number => "36"
  | truth => "33"
  | faint => "2"

/-- The escape code with the given parameters. -/
def escapeCode (parameters : String) : List Char :=
  '\x1b' :: '[' :: parameters.toList ++ ['m']

/-- The escape code that ends every colour. -/
def colourEnd : List Char :=
  escapeCode "0"

/-- The text with a colour begun again after each of its own colour ends. -/
def resume (start : List Char) : List Char → List Char
  | '\x1b' :: '[' :: '0' :: 'm' :: cs => '\x1b' :: '[' :: '0' :: 'm' :: start ++ resume start cs
  | c :: cs => c :: resume start cs
  | [] => []

/-- The text in the colour of a role, if there are colours. -/
def paint (colours : Bool) (role : Role) (s : String) : String :=
  if colours then
    let start := escapeCode role.code
    String.ofList (start ++ resume start s.toList ++ colourEnd)
  else s

/-- Whether a value has entries or items. -/
def isNested : Json → Bool
  | .object es => !es.isEmpty
  | .array vs => !vs.isEmpty
  | _ => false

/-- The text of a value without entries and items. -/
def leaf (colours : Bool) : Json → String
  | .null => paint colours .faint "none"
  | .bool b => paint colours .truth (Json.printBool b)
  | .number n => paint colours .number n.print
  | .string s => paint colours .string s
  | .array _ => paint colours .faint "[]"
  | .object _ => paint colours .faint "\x7b\x7d"

mutual

/-- The lines of a value at a level. -/
def block (colours : Bool) (level : Nat) : Json → String
  | .object es => entryLines colours level es
  | .array vs => itemLines colours level vs
  | v => indent level ++ leaf colours v ++ "\n"

/-- The lines of the entries of an object. -/
def entryLines (colours : Bool) (level : Nat) : List (String × Json) → String
  | [] => ""
  | (k, v) :: es =>
    indent level ++ paint colours .key k ++ ":" ++
      (if isNested v then "\n" ++ block colours (level + 1) v
        else " " ++ leaf colours v ++ "\n") ++
      entryLines colours level es

/-- The lines of the items of an array. -/
def itemLines (colours : Bool) (level : Nat) : List Json → String
  | [] => ""
  | v :: vs =>
    indent level ++ "-" ++
      (if isNested v then "\n" ++ block colours (level + 1) v
        else " " ++ leaf colours v ++ "\n") ++
      itemLines colours level vs

end

/-- The lines of a value, the entries of objects sorted by key, without white space at the end. -/
def pretty (colours : Bool) (v : Json) : String :=
  String.ofList (Text.trimEnd (block colours 0 v.sorted).toList)

end SchemaClient.Report
