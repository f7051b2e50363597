import SchemaClient.Text.Space

/-!
# Documentation comments

A documentation text is written as a block comment in front of what it documents. A text on one
line stays on one line; the lines of a longer one each stand behind an asterisk.
-/

namespace SchemaClient.Code.Comment

open SchemaClient.Text

/-- The text with every comment terminator broken up by a backslash. -/
def disarm : List Char → List Char
  | '*' :: '/' :: cs => '*' :: '\\' :: '/' :: disarm cs
  | c :: cs => c :: disarm cs
  | [] => []

/-- The lines of a text; a line feed at its end begins no further line. -/
def lines (cs : List Char) : List (List Char) :=
  let pieces := cs.splitOn '\n'
  if pieces.getLast? = some [] then pieces.dropLast else pieces

/-- One line of a block comment, without the white space at its end. -/
def line (indent : String) (cs : List Char) : String :=
  match trimEnd cs with
  | [] => indent ++ " *\n"
  | cs => indent ++ " * " ++ String.ofList cs ++ "\n"

/-- The comment that holds a documentation text, each of its lines behind `indent`. -/
def block (indent : String) (doc : String) : String :=
  let cs := disarm doc.toList
  if cs.contains '\n' then
    indent ++ "/**\n" ++ String.join ((lines cs).map (line indent)) ++ indent ++ " */\n"
  else
    indent ++ "/** " ++ String.ofList cs ++ " */\n"

/-- The comment of an optional documentation text; without one there is none. -/
def optional (indent : String) : Option String → String
  | none => ""
  | some doc => block indent doc

end SchemaClient.Code.Comment
