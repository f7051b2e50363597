import SchemaClient.Proofs.ModuleText

/-!
# The order of items of different kinds

Inventories are the same by kind if they list the same structs in the same order, and likewise the
enums and the routes. How the kinds are interleaved and where unknown items stand makes no
difference to the module: its text, its file and its numbers are the same, but for the number of
items that are skipped, and so is the cycle that keeps an inventory from having a module.
-/

namespace SchemaClient.Schema

/-- The inventories have the same structs, the same enums and the same routes in the same order. -/
structure Inventory.SameByKind (a b : Inventory) : Prop where
  version : a.version = b.version
  structs : a.items.filter (·.definition.isStruct) = b.items.filter (·.definition.isStruct)
  enums : a.items.filter (·.definition.isEnum) = b.items.filter (·.definition.isEnum)
  routes : a.items.filter (·.definition.isRoute) = b.items.filter (·.definition.isRoute)

lemma filterMap_eq_of_filter_eq {α β : Type} {p : α → Bool} {f : α → Option β}
    (hf : ∀ a, p a = false → f a = none) {l m : List α} (h : l.filter p = m.filter p) :
    l.filterMap f = m.filterMap f := by
  have hfilter (k : List α) : (k.filter p).filterMap f = k.filterMap f := by
    rw [List.filterMap_filter]
    congr 1
    funext a
    cases hp : p a with
    | false => simp [hf a hp]
    | true => simp
  rw [← hfilter l, h, hfilter m]

namespace Inventory.SameByKind

variable {a b : Inventory} (h : a.SameByKind b)
include h

lemma structs_eq : a.structs = b.structs := by
  refine filterMap_eq_of_filter_eq (fun i hi => ?_) h.structs
  cases hdefinition : i.definition <;> simp_all [Definition.isStruct]

lemma enums_eq : a.enums = b.enums := by
  refine filterMap_eq_of_filter_eq (fun i hi => ?_) h.enums
  cases hdefinition : i.definition <;> simp_all [Definition.isEnum]

lemma routes_eq : a.routes = b.routes := by
  refine filterMap_eq_of_filter_eq (fun i hi => ?_) h.routes
  cases hdefinition : i.definition <;> simp_all [Definition.isRoute]

end Inventory.SameByKind
end SchemaClient.Schema

namespace SchemaClient.Client
open SchemaClient.Schema SchemaClient.Code

variable {a b : Inventory}

lemma ofInventory_eq_of_sameByKind (h : a.SameByKind b) :
    Selection.ofInventory a = Selection.ofInventory b := by
  have hstructs : Inventory.structs ⟨"", a.items⟩ = Inventory.structs ⟨"", b.items⟩ := h.structs_eq
  have henums : Inventory.enums ⟨"", a.items⟩ = Inventory.enums ⟨"", b.items⟩ := h.enums_eq
  have hroutes : Inventory.routes ⟨"", a.items⟩ = Inventory.routes ⟨"", b.items⟩ := h.routes_eq
  rw [Selection.ofInventory, Selection.ofInventory, Selection.ofItems, Selection.ofItems, hstructs,
    henums, hroutes, h.routes_eq]

/-- The sections of both are the same, but for the number of skipped items. -/
lemma sections_eq_of_sameByKind (h : a.SameByKind b) :
    Sections.ofInventory b = { Sections.ofInventory a with
      stats := { (Sections.ofInventory a).stats with skippedItems := b.kindCounts.unknown } } := by
  rw [ofInventory_eq_selection a, ofInventory_eq_selection b, ofInventory_eq_of_sameByKind h]
  rfl

/-- Both have the same module but for the number of skipped items, or both have none because of the
same cycle. -/
inductive SameButSkipped : Except Failure Module → Except Failure Module → Prop
  | cycle (chain : List String) :
    SameButSkipped (.error (.flattenCycle chain)) (.error (.flattenCycle chain))
  | module (m : Module) (skipped : Nat) :
    SameButSkipped (.ok m) (.ok { m with stats := { m.stats with skippedItems := skipped } })

/-- Inventories that are the same by kind have the same outcome, and one pass over each of them
gathers the same sections. Only the number of skipped items may differ. -/
theorem generate_of_sameByKind (h : a.SameByKind b) :
    SameButSkipped (generate a) (generate b) ∧
      ∃ skipped, Sections.ofInventory b = { Sections.ofInventory a with
        stats := { (Sections.ofInventory a).stats with skippedItems := skipped } } := by
  have hsections := sections_eq_of_sameByKind h
  have htypes : declaredTypes a = declaredTypes b := by
    rw [← types_ofInventory, ← types_ofInventory, hsections]
    rfl
  have htext : moduleText a = moduleText b := by
    rw [← text_ofInventory, ← text_ofInventory, hsections]
    rfl
  have hfile : a.fileName = b.fileName := by
    rw [Inventory.fileName, Inventory.fileName, h.version]
  refine ⟨?_, b.kindCounts.unknown, hsections⟩
  rw [generate_eq a, generate_eq b, htypes, htext, hfile, h.version, hsections]
  cases findCycle? (declaredTypes b) with
  | some chain => exact .cycle chain
  | none => exact .module _ b.kindCounts.unknown

/-- An inventory whose kinds are mixed, with links to a route that stands behind them. -/
def mixedInventory : Inventory where
  version := "2.0.0"
  items :=
    [{ name := "post", doc := "", category := "", hidden := false, package := ""
       definition := .route ⟨"POST", "/post", [], [], none, none, []⟩ },
     { name := "Later", doc := "", category := "", hidden := false, package := ""
       definition := .unknown },
     { name := "Message", doc := "See [`get_all`].", category := "", hidden := false, package := ""
       definition := .struct ⟨[⟨"stamp", none, "Stamp", true, false, false⟩]⟩ },
     { name := "Event", doc := "", category := "", hidden := false, package := ""
       definition := .enum ⟨some "type", false, none, none, [⟨"Ping", none, .unit⟩]⟩ },
     { name := "get_all", doc := "", category := "", hidden := false, package := ""
       definition := .route ⟨"GET", "/all", [], [], none, none, []⟩ },
     { name := "Stamp", doc := "", category := "", hidden := false, package := ""
       definition := .struct ⟨[⟨"at", none, "u64", false, false, false⟩]⟩ }]

/-- The same items by kind, the routes last. -/
def sortedInventory : Inventory where
  version := "2.0.0"
  items :=
    mixedInventory.items.filter (·.definition.isStruct) ++
      mixedInventory.items.filter (·.definition.isEnum) ++
      mixedInventory.items.filter (·.definition.isRoute)

theorem generate_of_sameByKind_mixedInventory :
    mixedInventory.SameByKind sortedInventory ∧
      SameButSkipped (generate mixedInventory) (generate sortedInventory) ∧
      ∃ skipped, Sections.ofInventory sortedInventory = { Sections.ofInventory mixedInventory with
        stats := { (Sections.ofInventory mixedInventory).stats with skippedItems := skipped } } :=
  have hsame : mixedInventory.SameByKind sortedInventory := ⟨rfl, rfl, rfl, rfl⟩
  ⟨hsame, generate_of_sameByKind hsame⟩

end SchemaClient.Client
