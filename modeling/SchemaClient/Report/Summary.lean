import SchemaClient.Json.Value
import SchemaClient.Schema.Inventory

/-!
# Summaries of inventories

A summary tells how many items of each kind an inventory has and lists them in order.
-/

namespace SchemaClient.Report

open SchemaClient.Schema

/-- What a summary tells about an item. -/
structure ItemSummary where
  name : String
  kind : String
  category : String
  hidden : Bool
  /-- The method and the path of a route. -/
  endpoint : Option String
deriving DecidableEq, Repr

/-- What is told about an inventory. -/
structure Summary where
  version : String
  fileName : String
  counts : KindCounts
  items : List ItemSummary
deriving DecidableEq, Repr

/-- The method and the path that a definition is reached under. -/
def endpoint? : Definition → Option String
  | .route r => some (r.method ++ " " ++ r.path)
  | _ => none

/-- The summary of an item. -/
def ItemSummary.ofItem (i : Item) : ItemSummary :=
  ⟨i.name, i.definition.kind, i.category, i.hidden, endpoint? i.definition⟩

/-- The summary of an inventory. -/
def Summary.ofInventory (inv : Inventory) : Summary :=
  ⟨inv.version, inv.fileName, inv.kindCounts, inv.items.map .ofItem⟩

/-- The report of an item; items that are no routes have no endpoint. -/
def ItemSummary.toJson (i : ItemSummary) : Json :=
  .object
    ([("name", .string i.name), ("kind", .string i.kind), ("category", .string i.category),
      ("hidden", .bool i.hidden)] ++ i.endpoint.toList.map fun e => ("endpoint", .string e))

/-- The report of an inventory. -/
def Summary.toJson (s : Summary) : Json :=
  .object
    [("version", .string s.version), ("file_name", .string s.fileName),
     ("counts", .object
       [("structs", .nat s.counts.structs), ("enums", .nat s.counts.enums),
        ("routes", .nat s.counts.routes), ("unknown", .nat s.counts.unknown)]),
     ("items", .array (s.items.map ItemSummary.toJson))]

end SchemaClient.Report
