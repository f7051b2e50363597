import SchemaClient.Text.Space
import SchemaClient.Text.Upper

/-!
# Spellings of names

Route and parameter names are written in camel case, and the names of enum variants may be
written in capitals with underscores.
-/

namespace SchemaClient.Text

/-- The text without underscores, the character after each run of them raised to an ASCII capital;
`raise` says whether the character at the front stands after one. -/
def joinWords (raise : Bool) : List Char → List Char
  | [] => []
  | c :: cs =>
    if c = '_' then joinWords true cs
    else (if raise then c.toUpper else c) :: joinWords false cs

/-- The camel case of a name whose words are separated by underscores. -/
def camelCase (name : String) : String :=
  String.ofList (joinWords false name.toList)

/-- Separates a character from the capital after it, white space excepted. A capital that ends a
pair does not begin the next one, so a run of capitals is cut into pieces of two. -/
def splitCapitals : List Char → List Char
  | c :: d :: cs =>
    if !isSpace c && isUpper d then c :: '_' :: d :: splitCapitals cs
    else c :: splitCapitals (d :: cs)
  | cs => cs

/-- The name in capitals, an underscore before each inner capital. -/
def screamingCase (name : String) : String :=
  String.ofList (upperCase (splitCapitals name.toList))

end SchemaClient.Text
