import SchemaClient.Toml.Table
import SchemaClient.Toml.Token

/-!
# Reading TOML documents

A document is a sequence of lines. A line gives a key its value, or it is a header that names the
table for the lines behind it.
-/

namespace SchemaClient.Toml

namespace Token

/-- The tokens without the white space in front. -/
def skipSpace : List Token → List Token
  | .space _ :: ts => skipSpace ts
  | ts => ts

/-- The tokens without the white space and the line ends in front. -/
def skipLines : List Token → List Token
  | .space _ :: ts => skipLines ts
  | .newline :: ts => skipLines ts
  | ts => ts

/-- Whether a character may stand in a key without quotes. -/
def isKeyChar (c : Char) : Bool :=
  c.isAlphanum || c == '_' || c == '-'

/-- The part of a key that a token is. -/
def keyPart? : Token → Option String
  | .atom cs => if cs.all isKeyChar then some (String.ofList cs) else none
  | .quoted true cs => some (String.ofList cs)
  | _ => none

/-- The key of at most `parts` parts that tokens begin with, as a path and its last part, and the
tokens after it. -/
def keyUpTo? : Nat → List Token → Option ((List String × String) × List Token)
  | 0, _ => none
  | parts + 1, ts =>
    match skipSpace ts with
    | [] => none
    | t :: ts => do
      let k ← keyPart? t
      match skipSpace ts with
      | .dot :: ts =>
        let ((path, last), ts) ← keyUpTo? parts ts
        return ((k :: path, last), ts)
      | ts => return (([], k), ts)

/-- How many parts a key may have, and how deep arrays and inline tables may be nested. -/
def maxLevels : Nat := 80

/-- The key that tokens begin with, as a path and its last part, and the tokens after it. -/
def key? (ts : List Token) : Option ((List String × String) × List Token) :=
  keyUpTo? maxLevels ts

/-- The characters of the atoms and dots that tokens begin with, and the tokens after them. -/
def atomChars : List Token → List Char × List Token
  | .atom cs :: ts => let r := atomChars ts; (cs ++ r.1, r.2)
  | .dot :: ts => let r := atomChars ts; ('.' :: r.1, r.2)
  | ts => ([], ts)

/-- Whether a text is a date that a time may follow behind a blank. -/
def isDate (cs : List Char) : Bool :=
  Scalar.afterDate? cs == some []

/-- The scalar that tokens begin with, and the tokens after it. -/
def scalar? (ts : List Token) : Option (Scalar × List Token) :=
  match ts with
  | .quoted _ cs :: ts => some (.string cs, ts)
  | ts =>
    let (cs, rest) := atomChars ts
    match rest with
    | .space [' '] :: .atom a :: more =>
      if isDate cs then
        let (time, rest) := atomChars (.atom a :: more)
        (Scalar.ofChars? (cs ++ ' ' :: time)).map fun s => (s, rest)
      else (Scalar.ofChars? cs).map fun s => (s, rest)
    | _ => (Scalar.ofChars? cs).map fun s => (s, rest)

/-- The items of an array behind its opening bracket and the tokens behind the closing one; `fuel`
bounds the number of items. -/
def items? (value : List Token → Option (Value × List Token)) :
    Nat → List Token → Option (List Value × List Token)
  | 0, _ => none
  | fuel + 1, ts =>
    match skipLines ts with
    | .closeSquare :: ts => some ([], ts)
    | ts => do
      let (v, ts) ← value ts
      match skipLines ts with
      | .comma :: ts =>
        let (vs, ts) ← items? value fuel ts
        return (v :: vs, ts)
      | .closeSquare :: ts => return ([v], ts)
      | _ => none

/-- Puts the entries of an inline table, which stand behind its opening bracket, into a table, and
gives the tokens behind the closing one; `fuel` bounds the number of entries. Lines may end
everywhere but inside a key. -/
def members? (value : List Token → Option (Value × List Token)) :
    Nat → Entries → List Token → Option (Entries × List Token)
  | 0, _, _ => none
  | fuel + 1, es, ts =>
    match skipLines ts with
    | .closeCurly :: ts => some (es, ts)
    | ts => do
      let ((path, k), ts) ← key? ts
      match skipLines ts with
      | .equals :: ts =>
        let (v, ts) ← value (skipLines ts)
        let es ← es.insert? path k v
        match skipLines ts with
        | .comma :: ts => members? value fuel es ts
        | .closeCurly :: ts => return (es, ts)
        | _ => none
      | _ => none

/-- The value that tokens begin with and the tokens after it; `levels` bounds how deep arrays and
inline tables may be nested. -/
def value? : Nat → List Token → Option (Value × List Token)
  | levels, .openSquare :: ts =>
    match levels with
    | 0 => none
    | n + 1 => (items? (value? n) (ts.length + 1) ts).map fun r => (.array r.1, r.2)
  | levels, .openCurly :: ts =>
    match levels with
    | 0 => none
    | n + 1 =>
      (members? (value? n) (ts.length + 1) [] ts).map fun r => (.table (Entries.toValues r.1), r.2)
  | _, ts => (scalar? ts).map fun r => (.scalar r.1, r.2)

end Token

namespace Document

/-- A document that is being read: its tables, and the path of the table that lines go into. -/
structure State where
  root : Entries
  header : List String

/-- The tokens behind the end of a line, if nothing else stands in front of it. -/
def afterLine? (ts : List Token) : Option (List Token) :=
  match Token.skipSpace ts with
  | [] => some []
  | .newline :: ts => some ts
  | _ => none

/-- Reads a header behind its opening brackets; `array` says whether there are two of them. -/
def header? (s : State) (array : Bool) (ts : List Token) : Option (State × List Token) := do
  let ((path, k), ts) ← Token.key? ts
  let ts ← match array, ts with
    | true, .closeSquare :: .closeSquare :: ts => some ts
    | false, .closeSquare :: ts => some ts
    | _, _ => none
  let root ← if array then s.root.openElement? path k else s.root.openTable? path k
  return (⟨root, path ++ [k]⟩, ts)

/-- Reads a key and its value. -/
def entry? (s : State) (ts : List Token) : Option (State × List Token) := do
  let ((path, k), ts) ← Token.key? ts
  match ts with
  | .equals :: ts =>
    let (v, ts) ← Token.value? Token.maxLevels (Token.skipSpace ts)
    let root ← Entries.extend? false (fun _ es => es.insert? path k v) .named s.header s.root
    return (⟨root, s.header⟩, ts)
  | _ => none

/-- Reads what stands on a line. -/
def line? (s : State) : List Token → Option (State × List Token)
  | .openSquare :: .openSquare :: ts => header? s true ts
  | .openSquare :: ts => header? s false ts
  | ts => entry? s ts

/-- Reads lines to the end of the document; `fuel` bounds their number. -/
def lines? : Nat → State → List Token → Option State
  | 0, _, _ => none
  | fuel + 1, s, ts =>
    match Token.skipLines ts with
    | [] => some s
    | ts => do
      let (s, ts) ← line? s ts
      lines? fuel s (← afterLine? ts)

/-- The table of a document. -/
def ofChars? (cs : List Char) : Option (List (String × Value)) := do
  let ts ← Token.ofChars? cs
  let s ← lines? (ts.length + 1) ⟨[], []⟩ ts
  return Entries.toValues s.root

end Document

end SchemaClient.Toml
