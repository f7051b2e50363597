import SchemaClient.Toml.Quoted

/-!
# Tokens of TOML

The text of a TOML document is cut into punctuation, quoted texts, white space, line ends and
atoms, which are all that stands between those. Comments leave no token.
-/

namespace SchemaClient.Toml

/-- A token of a TOML document. -/
inductive Token where
  | dot
  | equals
  | comma
  | openSquare
  | closeSquare
  | openCurly
  | closeCurly
  | space (cs : List Char)
  | newline
  /-- A quoted text and whether its notation is one of a single line. -/
  | quoted (oneLine : Bool) (cs : List Char)
  | atom (cs : List Char)
deriving DecidableEq, Repr

namespace Token

/-- The token that a character is on its own. -/
def punctuation? : Char → Option Token
  | '.' => some .dot
  | '=' => some .equals
  | ',' => some .comma
  | '[' => some .openSquare
  | ']' => some .closeSquare
  | '\x7b' => some .openCurly
  | '\x7d' => some .closeCurly
  | _ => none

/-- Whether a character may stand inside an atom. -/
def isAtomChar (c : Char) : Bool :=
  (punctuation? c).isNone && !Quoted.isLineSpace c && c != '#' && c != '\n' && c != '\r'

/-- Whether a notation is one of a single line. -/
def isOneLine : Notation → Bool
  | .basic | .literal => true
  | _ => false

/-- The text behind a comment, up to the end of its line, if its characters are allowed. -/
def afterComment? (cs : List Char) : Option (List Char) :=
  let rest := cs.dropWhile Quoted.isPlain
  if rest.isEmpty || (Quoted.afterBreak? rest).isSome then some rest else none

/-- The first token of a text, unless it begins with a comment, and the text after it. -/
def next? (c : Char) (cs : List Char) : Option (Option Token × List Char) :=
  match punctuation? c, Quoted.afterBreak? (c :: cs), Quoted.opening? (c :: cs) with
  | some t, _, _ => some (some t, cs)
  | _, some rest, _ => some (some .newline, rest)
  | _, _, some (n, body) =>
    (Quoted.body? n body).map fun r => (some (.quoted (isOneLine n) r.1), r.2)
  | _, _, none =>
    if c = '#' then (afterComment? cs).map fun rest => (none, rest)
    else if Quoted.isLineSpace c then
      some (some (.space (c :: cs.takeWhile Quoted.isLineSpace)), cs.dropWhile Quoted.isLineSpace)
    else if isAtomChar c then
      some (some (.atom (c :: cs.takeWhile isAtomChar)), cs.dropWhile isAtomChar)
    else none

/-- The tokens of a text; `fuel` bounds their number. -/
def ofCharsUpTo? : Nat → List Char → Option (List Token)
  | _, [] => some []
  | 0, _ :: _ => none
  | fuel + 1, c :: cs => do
    let (t, rest) ← next? c cs
    return t.toList ++ (← ofCharsUpTo? fuel rest)

/-- The tokens of a text. A byte order mark in front of it is no part of it. -/
def ofChars? (cs : List Char) : Option (List Token) :=
  let cs := if cs.head? = some '\ufeff' then cs.drop 1 else cs
  ofCharsUpTo? cs.length cs

end Token

end SchemaClient.Toml
