import SchemaClient.Template.Basic

/-!
# Reading templates

Tags stand in double braces, a value also in triple ones. A tag that opens, divides or closes a
block and stands alone on its line takes the whole line away.
-/

namespace SchemaClient.Template

/-- A tag of a template. -/
inductive Tag where
  | value (path : List String)
  | helper (name : String) (subjects : List Subject)
  | opening (helper : String) (subject : Option Subject)
  /-- What follows stands in place of the body of the innermost block. -/
  | otherwise
  | closing (helper : String)
deriving DecidableEq, Repr

/-- A part of a template's text: plain characters, or a tag. -/
inductive Token where
  | plain (cs : List Char)
  | tag (t : Tag)
deriving DecidableEq, Repr

namespace Tag

/-- Whether a character may stand in a name: letters, digits, `_`, `-` and `$`, and every character
beyond ASCII. -/
def isNameChar (c : Char) : Bool :=
  c.isAlphanum || c == '_' || c == '-' || c == '$' || 0x80 ≤ c.toNat

/-- Whether a character may stand between the words of a tag. -/
def isBlank (c : Char) : Bool :=
  c == ' ' || c == '\t' || c == '\n' || c == '\r'

def skipBlanks (cs : List Char) : List Char :=
  cs.dropWhile isBlank

/-- The name that a text begins with, and the text after it. -/
def name? (cs : List Char) : Option (String × List Char) :=
  match cs.takeWhile isNameChar with
  | [] => none
  | n => some (String.ofList n, cs.dropWhile isNameChar)

/-- Whether a character divides the names of a path. -/
def isDivider (c : Char) : Bool :=
  c == '.' || c == '/'

/-- The name of the context itself, which leads nowhere else. -/
def selfName : String := "this"

/-- The path that a text is. -/
def path? (cs : List Char) : Option (List String) :=
  let parts := (match cs with
    | '.' :: '/' :: cs => cs
    | cs => cs).splitOnP isDivider
  if parts.any List.isEmpty then none else some ((parts.map String.ofList).filter (· != selfName))

/-- The characters of a path that a text begins with, and the text after them. -/
def pathChars (cs : List Char) : List Char × List Char :=
  cs.span fun c => isNameChar c || isDivider c

/-- The text after a string that ends with a quote; a backslash takes the next character along. -/
def afterString? (quote : Char) : List Char → Option (List Char)
  | [] => none
  | '\\' :: _ :: cs => afterString? quote cs
  | c :: cs => if c = quote then some cs else afterString? quote cs

/-- The text after the sign and the digits of an exponent, or the text itself if it does not begin
with one. -/
def afterExponent (cs : List Char) : List Char :=
  match cs with
  | 'E' :: rest =>
    let rest := if rest.head? = some '-' then rest.drop 1 else rest
    if rest.head?.any Char.isDigit then rest.dropWhile Char.isDigit else cs
  | cs => cs

/-- The text after a number, if it begins with one. -/
def afterNumber? (cs : List Char) : Option (List Char) :=
  let cs := if cs.head? = some '-' then cs.drop 1 else cs
  if cs.head?.any Char.isDigit then
    let cs := cs.dropWhile Char.isDigit
    let cs := if cs.head? = some '.' then (cs.drop 1).dropWhile Char.isDigit else cs
    let cs := afterExponent cs
    if cs.head?.any isNameChar then none else some cs
  else none

/-- The words that stand for a value themselves. -/
def constants : List String := ["null", "true", "false"]

/-- The words that mean something else inside a tag. -/
def keywords : List String := ["as", "else"]

/-- The path that a text begins with, and the text after it. -/
def pathSubject? (cs : List Char) : Option (Subject × List Char) :=
  let (p, rest) := pathChars cs
  (path? p).map fun p => (.path p, rest)

/-- What a tag is about that a text begins with, and the text after it. -/
def subject? (cs : List Char) : Option (Subject × List Char) :=
  match cs with
  | '"' :: cs => (afterString? '"' cs).map fun rest => (.scalar, rest)
  | '\x27' :: cs => (afterString? '\x27' cs).map fun rest => (.scalar, rest)
  | cs =>
    match afterNumber? cs, name? cs with
    | some rest, _ => some (.scalar, rest)
    | none, some (n, rest) =>
      if constants.contains n then some (.scalar, rest)
      else if keywords.contains n then none
      else pathSubject? cs
    | none, none => pathSubject? cs

/-- All that a tag is about, up to its closing braces; `fuel` bounds the number. -/
def subjects? : Nat → List Char → Option (List Subject × List Char)
  | 0, _ => none
  | fuel + 1, cs =>
    match skipBlanks cs with
    | '\x7d' :: cs => some ([], '\x7d' :: cs)
    | cs => do
      let (s, cs) ← subject? cs
      let (ss, cs) ← subjects? fuel cs
      return (s :: ss, cs)

/-- The value or the helper that a text names, and the text after it. -/
def named? (cs : List Char) : Option (Tag × List Char) :=
  let (name, rest) := pathChars cs
  if helpers.contains (String.ofList name) then some (.helper (String.ofList name) [], rest)
  else (path? name).map fun p => (.value p, rest)

/-- What is to be written that a text between the braces begins with, and the text after it: a
name with all that it is about is that of a helper. -/
def inserted? (cs : List Char) : Option (Tag × List Char) :=
  match (name? cs).bind fun (n, rest) => (subjects? (rest.length + 1) rest).map (n, ·) with
  | some (n, s :: ss, rest) => some (.helper n (s :: ss), rest)
  | _ => named? cs

/-- The text after the braces that close a tag, if it begins with them behind blanks. -/
def afterBraces? (cs : List Char) : Option (List Char) :=
  match skipBlanks cs with
  | '\x7d' :: '\x7d' :: cs => some cs
  | _ => none

/-- The tag that follows an opening double brace, and the text after it. Of all that an opening
tag is about, the first counts. -/
def ofChars? (cs : List Char) : Option (Tag × List Char) :=
  match skipBlanks cs with
  | '\x7b' :: cs => do
    let (t, cs) ← inserted? (skipBlanks cs)
    match skipBlanks cs with
    | '\x7d' :: cs => return (t, ← afterBraces? cs)
    | _ => none
  | '#' :: cs => do
    let (kind, cs) ← name? (skipBlanks cs)
    let (subjects, cs) ← subjects? (cs.length + 1) cs
    return (.opening kind subjects.head?, ← afterBraces? cs)
  | '/' :: cs => do
    let (kind, cs) ← name? (skipBlanks cs)
    return (.closing kind, ← afterBraces? cs)
  | '^' :: cs => return (.otherwise, ← afterBraces? cs)
  | 'e' :: 'l' :: 's' :: 'e' :: cs => return (.otherwise, ← afterBraces? cs)
  | cs => do
    let (t, cs) ← inserted? cs
    return (t, ← afterBraces? cs)

/-- Whether a tag opens, divides or closes a block. -/
def isStructural : Tag → Bool
  | .value _ => false
  | .helper _ _ => false
  | _ => true

end Tag

namespace Token

/-- The plain characters in front of the first tag, and what follows its opening braces, if there
is a tag. One backslash in front of double braces makes them plain; several ones in front of a tag
lose the first of them. -/
def plainChars : List Char → List Char × Option (List Char)
  | [] => ([], none)
  | '\\' :: '\x7b' :: '\x7b' :: '\x7b' :: '\x7b' :: cs =>
    let r := plainChars cs
    (List.replicate 4 '\x7b' ++ r.1, r.2)
  | '\\' :: '\x7b' :: '\x7b' :: cs =>
    let r := plainChars cs
    (List.replicate 2 '\x7b' ++ r.1, r.2)
  | '\x7b' :: '\x7b' :: cs => ([], some cs)
  | c :: cs =>
    match c == '\\' && cs.head? == some '\\', cs.dropWhile (· == '\\') with
    | true, '\x7b' :: '\x7b' :: rest => (cs.takeWhile (· == '\\'), some rest)
    | _, _ => let r := plainChars cs; (c :: r.1, r.2)

/-- The tokens of a template's text; `fuel` bounds the number of tags. -/
def ofChars? : Nat → List Char → Option (List Token)
  | fuel, cs =>
    match plainChars cs, fuel with
    | (p, none), _ => some [.plain p]
    | (p, some rest), fuel + 1 => do
      let (t, rest) ← Tag.ofChars? rest
      return .plain p :: .tag t :: (← ofChars? fuel rest)
    | _, 0 => none

/-- Whether a character is white space inside a line. -/
def isPad (c : Char) : Bool :=
  c == ' ' || c == '\t'

/-- The text behind the line of white space that a text begins with, if it does. The end of the last
text ends a line. -/
def afterEmptyLine? (isLast : Bool) (cs : List Char) : Option (List Char) :=
  match cs.dropWhile isPad with
  | '\n' :: cs => some cs
  | '\r' :: '\n' :: cs => some cs
  | '\r' :: cs => some ('\r' :: cs)
  | _ => if isLast && cs.isEmpty then some [] else none

/-- The text without the white space behind its last line break, if nothing else stands there. A
text that is all white space counts if it is the first one. -/
def beforeEmptyLine? (isFirst : Bool) (cs : List Char) : Option (List Char) :=
  match cs.reverse.dropWhile isPad with
  | [] => if isFirst then some [] else none
  | c :: rev => if c = '\n' ∨ c = '\r' then some (c :: rev).reverse else none

/-- Takes away the lines on which a structural tag stands alone. -/
def dropTagLines (isFirst : Bool) : List Token → List Token
  | .plain p :: .tag t :: .plain q :: ts =>
    match t.isStructural, beforeEmptyLine? isFirst p, afterEmptyLine? ts.isEmpty q with
    | true, some p, some q => .plain p :: .tag t :: dropTagLines true (.plain q :: ts)
    | _, _, _ => .plain p :: .tag t :: dropTagLines false (.plain q :: ts)
  | ts => ts
termination_by ts => ts.length

end Token

/-- A block whose end has not been read: what it begins with, the pieces read before it, the latest
first, and its body if another part follows. -/
structure OpenBlock where
  helper : String
  subject : Option Subject
  before : List Piece
  body : Option (List Piece)

/-- The block that ends with some pieces, and the pieces before it, the latest first. -/
def OpenBlock.close (b : OpenBlock) (pieces : List Piece) : List Piece :=
  match b.body with
  | none => .block b.helper b.subject pieces none :: b.before
  | some body => .block b.helper b.subject body (some pieces) :: b.before

/-- Arranges tokens into pieces. `pieces` are those read inside the innermost open block, the
latest first. -/
def arrange? (blocks : List OpenBlock) (pieces : List Piece) : List Token → Option (List Piece)
  | [] => if blocks.isEmpty then some pieces.reverse else none
  | .plain p :: ts => arrange? blocks (.text (String.ofList p) :: pieces) ts
  | .tag (.value p) :: ts => arrange? blocks (.value p :: pieces) ts
  | .tag (.helper n ss) :: ts => arrange? blocks (.helper n ss :: pieces) ts
  | .tag (.opening helper subject) :: ts =>
    arrange? (⟨helper, subject, pieces, none⟩ :: blocks) [] ts
  | .tag .otherwise :: ts =>
    match blocks with
    | b :: bs =>
      if b.body.isSome then none
      else arrange? ({ b with body := some pieces.reverse } :: bs) [] ts
    | [] => none
  | .tag (.closing helper) :: ts =>
    match blocks with
    | b :: bs => if b.helper = helper then arrange? bs (b.close pieces.reverse) ts else none
    | [] => none

/-- The template of a text; nothing if a tag or a block is not closed. -/
def ofString? (s : String) : Option (List Piece) := do
  let ts ← Token.ofChars? s.length s.toList
  arrange? [] [] (Token.dropTagLines true ts)

end SchemaClient.Template
