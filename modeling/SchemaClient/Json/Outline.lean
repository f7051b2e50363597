import SchemaClient.Json.Token

/-!
# Outlines of a JSON text

An outline is what a reader that goes through a JSON text from left to right has seen of it: a
value that may break off. It keeps apart the places where reading stops, so that a decoder which
follows the outline in the order of the text meets the first problem first, be it in the text or
in the shape of the value.
-/

namespace SchemaClient.Json

/-- What has been seen of a JSON value. A string without a text and a number without a value stand
for ones that can only be skipped. An array or object that is not closed tells why. -/
inductive Outline where
  | null
  | bool (b : Bool)
  | number (n : Option Number)
  | string (s : Option String)
  | array (items : List Outline) (stop : Option Break)
  | object (entries : List (Option String × Outline)) (stop : Option Break)
  | broken (b : Break)
deriving Inhabited

namespace Outline

/-- An entry of an object: its key, unless it is no text, and its value. -/
abbrev Entry := Option String × Outline

/-- A value around the place where reading stands, with what has been read of it, the latest
first. -/
inductive Frame where
  | array (items : List Outline)
  | object (entries : List Entry)
  /-- An object whose last key still waits for its value. -/
  | entry (entries : List Entry) (key : Option String)

/-- What may stand at the place where reading stands. -/
inductive Expected where
  | value
  /-- The first item of an array, or its end. -/
  | item
  /-- The first key of an object, or its end. -/
  | member
  /-- A key behind a comma. -/
  | key
  | colon
  /-- A comma, or the end of the array or object. -/
  | separator
deriving DecidableEq, Repr

/-- Puts a value where one is expected; without a frame the value is the outermost one. -/
def place (v : Outline) : List Frame → Option (List Frame)
  | .array vs :: st => some (.array (v :: vs) :: st)
  | .entry es k :: st => some (.object ((k, v) :: es) :: st)
  | _ => none

/-- The outermost value when reading stops inside the frames; `v` is the innermost one. -/
def unwind (b : Break) : Outline → List Frame → Outline
  | v, [] => v
  | v, .array vs :: st => unwind b (.array (v :: vs).reverse (some b)) st
  | v, .entry es k :: st => unwind b (.object ((k, v) :: es).reverse (some b)) st
  | _, .object es :: st => unwind b (.object es.reverse (some b)) st

/-- The outermost value when reading stops where a value is expected. -/
def stopAtValue (b : Break) (st : List Frame) : Outline :=
  unwind b (.broken b) st

/-- The outermost value when reading stops inside the innermost frame but not at a value. -/
def stopInside (b : Break) : List Frame → Outline
  | .array vs :: st => unwind b (.array vs.reverse (some b)) st
  | st => unwind b (.broken b) st

/-- The value that a token is on its own. -/
def ofToken? : Token → Option Outline
  | .null => some .null
  | .bool b => some (.bool b)
  | .number n => some (.number n)
  | .string s => some (.string s)
  | _ => none

/-- Why reading stops at a token that may not stand where a value is expected. -/
def breakAtValue : Token → Break
  | .broken _ b => b
  | _ => .malformed

/-- Why reading stops at a token that may not stand where a key is expected. -/
def breakAtKey : Token → Break
  | .broken true b => b
  | _ => .malformed

/-- The innermost frame as a value, if the bracket closes it, and the frames around it. -/
def close? (b : Bracket) : List Frame → Option (Outline × List Frame)
  | .array vs :: st => if b = .square then some (.array vs.reverse none, st) else none
  | .object es :: st => if b = .curly then some (.object es.reverse none, st) else none
  | _ => none

/-- What is expected behind a comma. -/
def afterComma : List Frame → Expected
  | .object _ :: _ => .key
  | _ => .value

/-- One step of the reader: the frames and what is expected after a token, or the outermost value
if it is complete or reading stops. -/
def step (st : List Frame) (e : Expected) (t : Token) : Outline ⊕ (List Frame × Expected) :=
  let put (v : Outline) (st : List Frame) : Outline ⊕ (List Frame × Expected) :=
    match place v st with
    | some st => .inr (st, .separator)
    | none => .inl v
  match e, t with
  | .item, .closing b | .member, .closing b | .separator, .closing b =>
    match close? b st with
    | some (v, st) => put v st
    | none => .inl (stopInside .malformed st)
  | .separator, .comma => .inr (st, afterComma st)
  | .separator, _ => .inl (stopInside .malformed st)
  | .value, .opening .square | .item, .opening .square => .inr (.array [] :: st, .item)
  | .value, .opening .curly | .item, .opening .curly => .inr (.object [] :: st, .member)
  | .value, t | .item, t =>
    match ofToken? t with
    | some v => put v st
    | none => .inl (stopAtValue (breakAtValue t) st)
  | .member, .string k | .key, .string k =>
    match st with
    | .object es :: st => .inr (.entry es k :: st, .colon)
    | st => .inl (stopInside .malformed st)
  | .member, t | .key, t => .inl (stopInside (breakAtKey t) st)
  | .colon, .colon => .inr (st, .value)
  | .colon, _ => .inl (stopAtValue .malformed st)

/-- The outermost value when the text ends. -/
def atEnd (st : List Frame) : Expected → Outline
  | .value => stopAtValue .ended st
  | .colon => stopAtValue .ended st
  | _ => stopInside .ended st

/-- Reads the outermost value and gives the tokens after it. -/
def read : List Frame → Expected → List Token → Outline × List Token
  | st, e, [] => (atEnd st e, [])
  | st, e, t :: ts =>
    match step st e t with
    | .inl v => (v, ts)
    | .inr (st, e) => read st e ts

/-- The outline of the value that tokens begin with, and the tokens after it. -/
def ofTokens (ts : List Token) : Outline × List Token :=
  read [] .value ts

/-- How deep arrays and objects may be nested where a value is taken. -/
def maxDepth : Nat := 127

mutual

/-- The first problem of a value that is taken whatever its shape, at a depth of nesting. -/
def problem? (depth : Nat) : Outline → Option Cause
  | .number none => some .malformed
  | .string none => some .malformed
  | .array vs stop =>
    if maxDepth ≤ depth then some .malformed
    else (problemInItems? (depth + 1) vs).or (stop.map (·.taken))
  | .object es stop =>
    if maxDepth ≤ depth then some .malformed
    else (problemInEntries? (depth + 1) es).or (stop.map (·.taken))
  | .broken b => some b.taken
  | _ => none

/-- The first problem of values in order. -/
def problemInItems? (depth : Nat) : List Outline → Option Cause
  | [] => none
  | v :: vs => (v.problem? depth).or (problemInItems? depth vs)

/-- The first problem of entries in order. -/
def problemInEntries? (depth : Nat) : List (Option String × Outline) → Option Cause
  | [] => none
  | (none, _) :: _ => some .malformed
  | (some _, v) :: es => (v.problem? depth).or (problemInEntries? depth es)

end

mutual

/-- The first problem of a value that is skipped. -/
def skipProblem? : Outline → Option Cause
  | .array vs stop => (skipProblemInItems? vs).or (stop.map (·.skipped))
  | .object es stop => (skipProblemInEntries? es).or (stop.map (·.skipped))
  | .broken b => some b.skipped
  | _ => none

/-- The first problem of values that are skipped. -/
def skipProblemInItems? : List Outline → Option Cause
  | [] => none
  | v :: vs => v.skipProblem?.or (skipProblemInItems? vs)

/-- The first problem of entries that are skipped. -/
def skipProblemInEntries? : List (Option String × Outline) → Option Cause
  | [] => none
  | (_, v) :: es => v.skipProblem?.or (skipProblemInEntries? es)

end

mutual

/-- The value of an outline that has no problem. -/
def value? : Outline → Option Json
  | .null => some .null
  | .bool b => some (.bool b)
  | .number n => n.map .number
  | .string s => s.map .string
  | .array vs none => (itemValues? vs).map .array
  | .object es none => (entryValues? es).map .object
  | _ => none

/-- The values of outlines that have no problem. -/
def itemValues? : List Outline → Option (List Json)
  | [] => some []
  | v :: vs => do
    let v ← v.value?
    let vs ← itemValues? vs
    return v :: vs

/-- The values of entries that have no problem. -/
def entryValues? : List (Option String × Outline) → Option (List (String × Json))
  | [] => some []
  | (k, v) :: es => do
    let k ← k
    let v ← v.value?
    let es ← entryValues? es
    return (k, v) :: es

end

end Outline

/-- The value of a JSON text. -/
def ofString? (s : String) : Option Json :=
  match Outline.ofTokens (Token.ofGlyphs (Text.Glyph.ofString s)) with
  | (v, []) => v.value?
  | _ => none

end SchemaClient.Json
