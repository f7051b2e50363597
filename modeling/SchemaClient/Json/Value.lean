import SchemaClient.Json.Binary64

/-!
# JSON values

A JSON value keeps the entries of an object in the order in which they are written. Numbers are
whole numbers or binary floating point numbers.
-/

namespace SchemaClient

namespace Json

/-- A number of a JSON value. -/
inductive Number where
  | integer (i : Int)
  | float (negative : Bool) (magnitude : Binary64)
deriving DecidableEq, Repr, Inhabited

end Json

/-- A JSON value. -/
inductive Json where
  | null
  | bool (b : Bool)
  | number (n : Json.Number)
  | string (s : String)
  | array (items : List Json)
  | object (entries : List (String × Json))
deriving Inhabited

namespace Json

/-- The number that is a natural number. -/
def nat (n : Nat) : Json :=
  .number (.integer n)

/-- The string, or null. -/
def optional : Option String → Json
  | none => .null
  | some s => .string s

/-- The value of a key of an object. -/
def get? (key : String) : Json → Option Json
  | .object es => es.lookup key
  | _ => none

/-- Puts an entry into entries sorted by key; an entry of the same key is replaced. -/
def putSorted (key : String) (v : Json) : List (String × Json) → List (String × Json)
  | [] => [(key, v)]
  | (k, w) :: es =>
    if key < k then (key, v) :: (k, w) :: es
    else if key = k then (key, v) :: es
    else (k, w) :: putSorted key v es

mutual

/-- The value with the entries of every object sorted by key; of entries with one key the last
counts. -/
def sorted : Json → Json
  | .array vs => .array (sortedItems vs)
  | .object es => .object (sortedEntries [] es)
  | v => v

/-- Each of the values sorted. -/
def sortedItems : List Json → List Json
  | [] => []
  | v :: vs => v.sorted :: sortedItems vs

/-- The entries put into sorted entries, each value sorted. -/
def sortedEntries (acc : List (String × Json)) : List (String × Json) → List (String × Json)
  | [] => acc
  | (k, v) :: es => sortedEntries (putSorted k v.sorted acc) es

end

end Json

end SchemaClient
