import SchemaClient.Schema.Item

/-!
# Inventories

An inventory is a version with its items in order. Its index lists where each item is found.
-/

namespace SchemaClient.Schema

/-- The table of contents of an inventory: where its items are found, in order. -/
structure Index where
  version : String
  items : List String
deriving DecidableEq, Repr, Inhabited

/-- A complete inventory. -/
structure Inventory where
  version : String
  items : List Item
deriving DecidableEq, Repr, Inhabited

/-- How many items there are of each kind. -/
structure KindCounts where
  structs : Nat
  enums : Nat
  routes : Nat
  unknown : Nat
deriving DecidableEq, Repr, Inhabited

namespace Inventory

/-- The name of the file that holds the module of an inventory. -/
def fileName (inv : Inventory) : String :=
  "v" ++ inv.version ++ ".ts"

/-- How many items of each kind an inventory has. -/
def kindCounts (inv : Inventory) : KindCounts where
  structs := inv.items.countP (·.definition matches .struct _)
  enums := inv.items.countP (·.definition matches .enum _)
  routes := inv.items.countP (·.definition matches .route _)
  unknown := inv.items.countP (·.definition matches .unknown)

end Inventory

end SchemaClient.Schema
