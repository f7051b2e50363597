import Mathlib
import SchemaClient.Client.Module

/-!
# Selecting a module kind by kind

A module is gathered in one pass: each item is declared at the end of the section of its kind and
counted there. The pass comes to what is selected from the inventory kind by kind and to the numbers
that are read off it.
-/

namespace SchemaClient.Schema

namespace Definition

def isStruct : Definition → Bool
  | .struct _ => true
  | _ => false

def isEnum : Definition → Bool
  | .enum _ => true
  | _ => false

def isRoute : Definition → Bool
  | .route _ => true
  | _ => false

def isUnknown : Definition → Bool
  | .unknown => true
  | _ => false

end Definition

namespace Inventory

/-- The structs of an inventory, in order, each with its item. -/
def structs (inv : Inventory) : List (Item × Struct) :=
  inv.items.filterMap fun i => match i.definition with
    | .struct s => some (i, s)
    | _ => none

/-- The enums of an inventory, in order, each with its item. -/
def enums (inv : Inventory) : List (Item × Enumeration) :=
  inv.items.filterMap fun i => match i.definition with
    | .enum e => some (i, e)
    | _ => none

/-- The routes of an inventory, in order, each with its item. -/
def routes (inv : Inventory) : List (Item × Route) :=
  inv.items.filterMap fun i => match i.definition with
    | .route r => some (i, r)
    | _ => none

section Declared

variable {α : Type} (inv : Inventory)

lemma map_structs (f : Item → Struct → α) : inv.structs.map (fun p => f p.1 p.2) =
    inv.items.filterMap fun i => match i.definition with
      | .struct s => some (f i s)
      | _ => none := by
  rw [structs, List.map_filterMap]
  congr 1
  funext i
  cases i.definition <;> rfl

lemma flatMap_enums (f : Item → Enumeration → List α) : inv.enums.flatMap (fun p => f p.1 p.2) =
    inv.items.flatMap fun i => match i.definition with
      | .enum e => f i e
      | _ => [] := by
  rw [enums]
  induction inv.items with
  | nil => rfl
  | cons i items ih => cases hi : i.definition <;> simp [hi, ih]

lemma map_routes (f : Item → Route → α) : inv.routes.map (fun p => f p.1 p.2) =
    inv.items.filterMap fun i => match i.definition with
      | .route r => some (f i r)
      | _ => none := by
  rw [routes, List.map_filterMap]
  congr 1
  funext i
  cases i.definition <;> rfl

end Declared

lemma map_fst_filterMap {α : Type} {p : Item → Bool} {f : Item → Option (Item × α)}
    (hf : ∀ i, (f i).map (·.1) = if p i then some i else none) (items : List Item) :
    (items.filterMap f).map (·.1) = items.filter p := by
  rw [List.map_filterMap, ← List.filterMap_eq_filter]
  congr 1
  funext i
  rw [hf i, Option.guard]

variable (inv : Inventory)

lemma map_fst_structs :
    inv.structs.map (·.1) = inv.items.filter (·.definition.isStruct) :=
  map_fst_filterMap (fun i => by cases hi : i.definition <;> rfl) inv.items

lemma map_fst_enums :
    inv.enums.map (·.1) = inv.items.filter (·.definition.isEnum) :=
  map_fst_filterMap (fun i => by cases hi : i.definition <;> rfl) inv.items

lemma map_fst_routes :
    inv.routes.map (·.1) = inv.items.filter (·.definition.isRoute) :=
  map_fst_filterMap (fun i => by cases hi : i.definition <;> rfl) inv.items

lemma map_name_routes :
    inv.routes.map (·.1.name) = (inv.items.filter (·.definition.isRoute)).map (·.name) := by
  rw [← map_fst_routes, List.map_map]
  rfl

end Inventory
end SchemaClient.Schema

namespace SchemaClient.Client
open SchemaClient.Schema SchemaClient.Code

/-- The declarations of a module, selected kind by kind. -/
structure Selection where
  structs : List Declaration
  enums : List EnumDeclarations
  routes : List RouteFunction

namespace Selection

/-- The selection from some items, whose documentation may refer to the named routes. -/
def ofItems (names : List String) (items : List Item) : Selection where
  structs := (Inventory.structs ⟨"", items⟩).map fun p => declareStruct names p.1 p.2
  enums := (Inventory.enums ⟨"", items⟩).map fun p => declareEnum names p.1 p.2
  routes := (Inventory.routes ⟨"", items⟩).map fun p => declareRoute names p.1 p.2

/-- The selection from an inventory, with the names of all routes at hand. -/
def ofInventory (inv : Inventory) : Selection :=
  ofItems (inv.routes.map (·.1.name)) inv.items

/-- The declarations of the enums one behind the other. -/
def enumDeclarations (s : Selection) : List Declaration :=
  s.enums.flatMap (·.all)

/-- How many declarations there are; `skipped` is how many items have none. -/
def stats (s : Selection) (skipped : Nat) : Stats where
  structs := s.structs.length
  enums := s.enums.length
  variants := (s.enums.map (·.variants.length)).sum
  omittedVariants := (s.enums.map (·.omitted)).sum
  routes := s.routes.length
  skippedItems := skipped

end Selection

/-- Some sections, and behind them a selection from further items. -/
def Sections.append (g : Sections) (s : Selection) (skipped : Nat) : Sections where
  structs := g.structs ++ s.structs
  enums := g.enums ++ s.enumDeclarations
  routes := g.routes ++ s.routes
  stats :=
    { structs := g.stats.structs + s.structs.length
      enums := g.stats.enums + s.enums.length
      variants := g.stats.variants + (s.enums.map (·.variants.length)).sum
      omittedVariants := g.stats.omittedVariants + (s.enums.map (·.omitted)).sum
      routes := g.stats.routes + s.routes.length
      skippedItems := g.stats.skippedItems + skipped }

section Items

variable (names : List String)

def unknownOf (items : List Item) : Nat :=
  items.countP (·.definition.isUnknown)

lemma append_nil (g : Sections) : g.append (.ofItems names []) (unknownOf []) = g := by
  simp [Sections.append, Selection.ofItems, Selection.enumDeclarations, unknownOf,
    Inventory.structs, Inventory.enums, Inventory.routes]

lemma append_add (g : Sections) (i : Item) (items : List Item) :
    (g.add names i).append (.ofItems names items) (unknownOf items) =
      g.append (.ofItems names (i :: items)) (unknownOf (i :: items)) := by
  cases hi : i.definition
  all_goals
    simp [Sections.add, Sections.append, Selection.ofItems, Selection.enumDeclarations, unknownOf,
      Inventory.structs, Inventory.enums, Inventory.routes, Definition.isUnknown, hi]
    omega

lemma foldl_add (items : List Item) (g : Sections) : items.foldl (Sections.add names) g =
    g.append (.ofItems names items) (unknownOf items) := by
  induction items generalizing g with
  | nil => rw [List.foldl_nil, append_nil]
  | cons i items ih => rw [List.foldl_cons, ih, append_add]

end Items

/-- One pass over an inventory gathers what is selected from it kind by kind, and counts it. -/
theorem ofInventory_eq_selection (inv : Inventory) :
    let s := Selection.ofInventory inv
    Sections.ofInventory inv =
      ⟨s.structs, s.enumDeclarations, s.routes, s.stats inv.kindCounts.unknown⟩ := by
  have hnames : Sections.linkNames inv.items = inv.routes.map (·.1.name) :=
    inv.map_name_routes.symm
  dsimp only
  rw [Sections.ofInventory, hnames, foldl_add, Sections.append]
  simp only [Selection.stats, Sections.empty, List.nil_append, Nat.zero_add]
  rfl

end SchemaClient.Client
