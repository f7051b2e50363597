/-!
# White space

The characters with the Unicode property White_Space, and trimming by them. All blank tests and
trims of documentation, names and reports use this one class. Every text that is written on several
lines is indented by two spaces a level.
-/

namespace SchemaClient.Text

/-- Whether a character has the Unicode property White_Space. -/
def isSpace (c : Char) : Bool :=
  let n := c.toNat
  (9 ≤ n && n ≤ 13) || n == 0x20 || n == 0x85 || n == 0xA0 || n == 0x1680 ||
    (0x2000 ≤ n && n ≤ 0x200A) || n == 0x2028 || n == 0x2029 || n == 0x202F ||
    n == 0x205F || n == 0x3000

/-- The text without the characters of the class `p` at its end. -/
def dropEndWhile (p : Char → Bool) (cs : List Char) : List Char :=
  (cs.reverse.dropWhile p).reverse

/-- The text without the white space at its end. -/
def trimEnd (cs : List Char) : List Char :=
  dropEndWhile isSpace cs

/-- Whether the text holds nothing but white space. -/
def isBlank (cs : List Char) : Bool :=
  cs.all isSpace

/-- The white space in front of a line at a level. -/
def indent (level : Nat) : String :=
  String.ofList (List.replicate (2 * level) ' ')

theorem dropEndWhile_append_dropped (p : Char → Bool) (cs : List Char) :
    dropEndWhile p cs ++ (cs.reverse.takeWhile p).reverse = cs := by
  have h := List.takeWhile_append_dropWhile (p := p) (l := cs.reverse)
  rw [dropEndWhile, ← List.reverse_append, h, List.reverse_reverse]

end SchemaClient.Text
