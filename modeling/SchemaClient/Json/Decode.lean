import SchemaClient.Json.Outline

/-!
# Decoding outlines

A decoder follows the outline of a JSON text in the order of the text and stops at the first
problem. Records are read from objects, whose keys may stand in any order, or from arrays, which
list the fields in the order of their declaration.
-/

namespace SchemaClient.Json.Decode

/-- A decoder of values. -/
abbrev Decoder (α : Type) := Outline → Except Cause α

/-- Why a value is refused that has another shape than expected. -/
def refusal : Outline → Cause
  | .string none => .malformed
  | .number none => .malformed
  | .broken b => b.taken
  | _ => .mismatch

/-- A string. -/
def string : Decoder String
  | .string (some s) => .ok s
  | v => .error (refusal v)

/-- A truth value. -/
def bool : Decoder Bool
  | .bool b => .ok b
  | v => .error (refusal v)

/-- A value that may be null. -/
def optional {α : Type} (decode : Decoder α) : Decoder (Option α)
  | .null => .ok none
  | v => (decode v).map some

/-- Fails with a problem, if there is one. -/
def check : Option Cause → Except Cause Unit
  | none => .ok ()
  | some c => .error c

/-- Values in order. -/
def each {α : Type} (decode : Decoder α) : List Outline → Except Cause (List α)
  | [] => .ok []
  | v :: vs => do
    let a ← decode v
    let as ← each decode vs
    return a :: as

/-- An array of values. -/
def list {α : Type} (decode : Decoder α) : Decoder (List α)
  | .array vs stop => do
    let as ← each decode vs
    check (stop.map (·.taken))
    return as
  | v => .error (refusal v)

/-- A field of a record: its key, whether it must be there, and how its value is stored. -/
structure Slot (ρ : Type) where
  key : String
  required : Bool
  store : Outline → ρ → Except Cause ρ

/-- A field that must be there. -/
def required {ρ α : Type} (key : String) (decode : Decoder α) (set : α → ρ → ρ) : Slot ρ :=
  ⟨key, true, fun v r => (decode v).map (set · r)⟩

/-- A field that keeps its default where it is missing. -/
def defaulted {ρ α : Type} (key : String) (decode : Decoder α) (set : α → ρ → ρ) : Slot ρ :=
  ⟨key, false, fun v r => (decode v).map (set · r)⟩

/-- Stores the entries of an object in order; `seen` holds the keys that have been stored. A key of
the record may stand only once; other keys are skipped. -/
def storeEntries {ρ : Type} (slots : List (Slot ρ)) (seen : List String) (r : ρ) :
    List Outline.Entry → Except Cause (List String × ρ)
  | [] => .ok (seen, r)
  | (none, _) :: _ => .error .malformed
  | (some k, v) :: es =>
    match slots.find? (·.key == k) with
    | none => do
      check v.skipProblem?
      storeEntries slots seen r es
    | some slot =>
      if seen.contains k then .error .mismatch
      else do
        let r ← slot.store v r
        storeEntries slots (k :: seen) r es

/-- Stores the items of an array, which ends as `stop` says, in the order of the fields. `surplus`
is the problem of an item too many. -/
def storeItems {ρ : Type} (surplus : Cause) (stop : Option Break) :
    List (Slot ρ) → List Outline → ρ → Except Cause ρ
  | [], [], r => do
    check (stop.map (·.taken))
    return r
  | [], _ :: _, _ => .error surplus
  | slot :: slots, v :: vs, r => do
    let r ← slot.store v r
    storeItems surplus stop slots vs r
  | slot :: slots, [], r => do
    check (stop.map (·.taken))
    if slot.required then .error .mismatch
    storeItems surplus stop slots [] r

/-- A record with the given fields, `initial` holding their defaults. -/
def record {ρ : Type} (surplus : Cause) (slots : List (Slot ρ)) (initial : ρ) : Decoder ρ
  | .object es stop => do
    let (seen, r) ← storeEntries slots [] initial es
    check (stop.map (·.taken))
    if slots.all fun s => !s.required || seen.contains s.key then return r
    .error .mismatch
  | .array vs stop => storeItems surplus stop slots vs initial
  | v => .error (refusal v)

/-- A value of several kinds: the value of the key that tells the kinds apart, if it is there, and
the other entries, each of which must be a value. -/
def splitTag {τ : Type} (key : String) (tag : Decoder τ) (depth : Nat) (found : Option τ) :
    List Outline.Entry → Except Cause (Option τ × List Outline.Entry)
  | [] => .ok (found, [])
  | (none, _) :: _ => .error .malformed
  | (some k, v) :: es =>
    if k = key then
      if found.isSome then .error .mismatch
      else do
        let t ← tag v
        splitTag key tag depth (some t) es
    else do
      check (v.problem? depth)
      let (found, rest) ← splitTag key tag depth found es
      return (found, (some k, v) :: rest)

/-- A value of one of several kinds. The kind stands under a key of an object or is the first item
of an array; the rest of the object or array is what `payload` decodes for the kind. `depth` is how
deep the value is nested. -/
def tagged {τ α : Type} (key : String) (tag : Decoder τ) (depth : Nat)
    (payload : τ → Decoder α) : Decoder α
  | .object es stop => do
    let (found, rest) ← splitTag key tag (depth + 1) none es
    check (stop.map (·.taken))
    match found with
    | some t => payload t (.object rest none)
    | none => .error .mismatch
  | .array [] stop => do
    check (stop.map (·.taken))
    .error .mismatch
  | .array (v :: vs) stop => do
    let t ← tag v
    check (Outline.problemInItems? (depth + 1) vs)
    check (stop.map (·.taken))
    payload t (.array vs none)
  | v => .error (refusal v)

/-- The value of a text, which may be followed by nothing else. -/
def text {α : Type} (decode : Decoder α) (gs : List Text.Glyph) : Except Cause α := do
  let (v, rest) := Outline.ofTokens (Token.ofGlyphs gs)
  let a ← decode v
  if rest.isEmpty then return a
  .error .malformed

end SchemaClient.Json.Decode
