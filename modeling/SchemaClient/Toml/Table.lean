import SchemaClient.Toml.Scalar

/-!
# Tables of TOML

A document fills its tables piece by piece. A table may be named by a header, implied by the header
of a table inside it, or made by a dotted key; what may be added to it later depends on that. A
value that is written as a whole is closed.
-/

namespace SchemaClient.Toml

/-- A value. -/
inductive Value where
  | scalar (s : Scalar)
  | array (items : List Value)
  | table (entries : List (String × Value))
deriving Inhabited

/-- How a table has come about. -/
inductive Origin where
  /-- A header names it. -/
  | named
  /-- The header of a table inside it implies it. -/
  | implied
  /-- A dotted key makes it. -/
  | dotted
deriving DecidableEq, Repr

/-- What stands under a key of a table that is being filled. -/
inductive Node where
  | closed (v : Value)
  | table (origin : Origin) (entries : List (String × Node))
  /-- The tables of an array that headers fill, the latest first. -/
  | tables (latest : List (String × Node)) (earlier : List (List (String × Node)))
deriving Inhabited

/-- The entries of a table that is being filled. -/
abbrev Entries := List (String × Node)

namespace Entries

/-- Puts a node under a key, in place of an earlier one. -/
def put (key : String) (n : Node) (es : Entries) : Entries :=
  es.filter (·.1 != key) ++ [(key, n)]

/-- Changes the table at the end of a path; `change` also learns how that table has come about.
Missing tables on the way are made. A dotted key does not enter a table that a header names, and
of the tables of an array the latest is entered. -/
def extend? (dotted : Bool) (change : Origin → Entries → Option Entries) (origin : Origin) :
    List String → Entries → Option Entries
  | [], es => change origin es
  | k :: ks, es =>
    match es.lookup k with
    | none =>
      let made := if dotted then Origin.dotted else .implied
      (extend? dotted change made ks []).map fun inner => es.put k (.table made inner)
    | some (.table o inner) =>
      if dotted && o = .named then none
      else (extend? dotted change o ks inner).map fun inner => es.put k (.table o inner)
    | some (.tables latest earlier) =>
      (extend? dotted change .named ks latest).map fun latest => es.put k (.tables latest earlier)
    | some (.closed _) => none

/-- Puts a value under a key that is written behind a dotted path. The table at the end of the path
must have been made by dotted keys, and the key may not be there yet. -/
def insert? (path : List String) (key : String) (v : Value) (es : Entries) : Option Entries :=
  let change (o : Origin) (es : Entries) : Option Entries :=
    if (!path.isEmpty && o != .dotted) || (es.lookup key).isSome then none
    else some (es.put key (.closed v))
  extend? true change .named path es

/-- Opens the table that a header names; a table that is only implied so far becomes named. -/
def openTable? (path : List String) (key : String) (es : Entries) : Option Entries :=
  let change (_ : Origin) (es : Entries) : Option Entries :=
    match es.lookup key with
    | none => some (es.put key (.table .named []))
    | some (.table .implied inner) => some (es.put key (.table .named inner))
    | some _ => none
  extend? false change .named path es

/-- Opens a further table of the array that a header names. -/
def openElement? (path : List String) (key : String) (es : Entries) : Option Entries :=
  let change (_ : Origin) (es : Entries) : Option Entries :=
    match es.lookup key with
    | none => some (es.put key (.tables [] []))
    | some (.tables latest earlier) => some (es.put key (.tables [] (latest :: earlier)))
    | some _ => none
  extend? false change .named path es

end Entries

mutual

/-- The value of a node that is complete. -/
def Node.toValue : Node → Value
  | .closed v => v
  | .table _ es => .table (Entries.toValues es)
  | .tables latest earlier =>
    .array ((Value.table (Entries.toValues latest) :: elementsToValues earlier).reverse)

/-- The values of entries that are complete. -/
def Entries.toValues : List (String × Node) → List (String × Value)
  | [] => []
  | (k, n) :: es => (k, n.toValue) :: Entries.toValues es

/-- The values of tables that are complete. -/
def elementsToValues : List (List (String × Node)) → List Value
  | [] => []
  | es :: rest => .table (Entries.toValues es) :: elementsToValues rest

end

end SchemaClient.Toml
