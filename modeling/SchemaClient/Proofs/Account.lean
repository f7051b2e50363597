import SchemaClient.Proofs.EnumDeclarations
import SchemaClient.Proofs.ModuleText
import SchemaClient.Report.Summary

/-!
# The account of an inventory

Every item of an inventory is accounted for once: by the numbers of its module, by the declarations
that the module is made of, by the counts of its kinds, and by the summary that lists it.
-/

namespace SchemaClient.Schema

/-- How many variants an item has; only enums have any. -/
def Definition.variantCount : Definition → Nat
  | .enum e => e.variants.length
  | _ => 0

namespace Inventory

variable (inv : Inventory)

lemma kindCounts_eq : inv.kindCounts =
    ⟨inv.items.countP (·.definition.isStruct), inv.items.countP (·.definition.isEnum),
      inv.items.countP (·.definition.isRoute), inv.items.countP (·.definition.isUnknown)⟩ :=
  rfl

lemma length_structs : inv.structs.length = inv.kindCounts.structs := by
  rw [← List.length_map (·.1), map_fst_structs, ← List.countP_eq_length_filter, kindCounts_eq]

lemma length_enums : inv.enums.length = inv.kindCounts.enums := by
  rw [← List.length_map (·.1), map_fst_enums, ← List.countP_eq_length_filter, kindCounts_eq]

lemma length_routes : inv.routes.length = inv.kindCounts.routes := by
  rw [← List.length_map (·.1), map_fst_routes, ← List.countP_eq_length_filter, kindCounts_eq]

end Inventory

lemma countP_kinds (items : List Item) :
    items.countP (·.definition.isStruct) + items.countP (·.definition.isEnum) +
      items.countP (·.definition.isRoute) + items.countP (·.definition.isUnknown) =
      items.length := by
  induction items with
  | nil => rfl
  | cons i items ih =>
    have hone : (if i.definition.isStruct then 1 else 0) + (if i.definition.isEnum then 1 else 0) +
        (if i.definition.isRoute then 1 else 0) +
        (if i.definition.isUnknown then 1 else 0) = 1 := by
      cases i.definition <;> rfl
    simp only [List.countP_cons, List.length_cons]
    omega

lemma sum_variantCount (inv : Inventory) :
    (inv.enums.map fun p => p.2.variants.length).sum =
      (inv.items.map (·.definition.variantCount)).sum := by
  rw [Inventory.enums]
  induction inv.items with
  | nil => rfl
  | cons i items ih =>
    cases hi : i.definition <;> simp [hi, ih, Definition.variantCount]

end SchemaClient.Schema

namespace SchemaClient.Client
open SchemaClient.Schema SchemaClient.Code SchemaClient.Report

lemma length_variants_add_omitted (routes : List String) (item : Item) (e : Enumeration) :
    (declareEnum routes item e).variants.length + (declareEnum routes item e).omitted =
      e.variants.length := by
  rw [variants_declareEnum, omitted_declareEnum, length_filterMap_add_countP]

/-- The summary tells the item's name, kind, category and whether it is hidden, and the method and
the path exactly if the item is a route. -/
structure Summarises (i : Item) (s : ItemSummary) : Prop where
  name : s.name = i.name
  kind : s.kind = i.definition.kind
  category : s.category = i.category
  hidden : s.hidden = i.hidden
  endpoint : s.endpoint.isSome ↔ i.definition.isRoute = true
  endpoint_eq : ∀ r, i.definition = .route r → s.endpoint = some (r.method ++ " " ++ r.path)

/-- The module, its declarations and the summary account for every item of the inventory. -/
structure IsAccount (inv : Inventory) (m : Module) (s : Selection) (summary : Summary) : Prop where
  /-- One pass gathers these declarations and these numbers. -/
  gathered : Sections.ofInventory inv = ⟨s.structs, s.enumDeclarations, s.routes, m.stats⟩
  content : m.content = (Sections.ofInventory inv).text
  kindCounts : inv.kindCounts =
    ⟨m.stats.structs, m.stats.enums, m.stats.routes, m.stats.skippedItems⟩
  counts : summary.counts = inv.kindCounts
  total : m.stats.structs + m.stats.enums + m.stats.routes + m.stats.skippedItems =
    inv.items.length
  variants : m.stats.variants + m.stats.omittedVariants =
    (inv.items.map (·.definition.variantCount)).sum
  structs : s.structs.length = m.stats.structs
  interfaces : ∀ d ∈ s.structs, ∃ bases members, d.shape = .interface bases members
  enumDeclarations : s.enumDeclarations.length = m.stats.enums + m.stats.variants
  routes : s.routes.length = m.stats.routes
  entries : (Registry.ofFunctions s.routes).entries.length = m.stats.routes
  structNames : s.structs.map (·.name) =
    (inv.items.filter (·.definition.isStruct)).map (·.name)
  unionNames : s.enums.map (·.union.name) =
    (inv.items.filter (·.definition.isEnum)).map (·.name)
  functionNames : s.routes.map (·.name) =
    (inv.items.filter (·.definition.isRoute)).map fun i => Text.camelCase i.name
  entryNames : (Registry.ofFunctions s.routes).entries.map (·.name) = s.routes.map (·.name)
  summaries : List.Forall₂ Summarises inv.items summary.items

lemma summarises_ofItem (i : Item) : Summarises i (ItemSummary.ofItem i) := by
  constructor
  case endpoint =>
    cases hi : i.definition <;> simp [ItemSummary.ofItem, endpoint?, hi, Definition.isRoute]
  case endpoint_eq =>
    intro r hr
    simp [ItemSummary.ofItem, endpoint?, hr]
  all_goals rfl

lemma length_enumDeclarations (s : Selection) :
    s.enumDeclarations.length = s.enums.length + (s.enums.map (·.variants.length)).sum := by
  rw [Selection.enumDeclarations, List.length_flatMap]
  induction s.enums with
  | nil => rfl
  | cons d ds ih =>
    simp only [List.map_cons, List.sum_cons, List.length_cons, EnumDeclarations.all] at ih ⊢
    omega

lemma sum_variants_ofInventory (inv : Inventory) :
    let s := Selection.ofInventory inv
    (s.enums.map (·.variants.length)).sum + (s.enums.map (·.omitted)).sum =
      (inv.items.map (·.definition.variantCount)).sum := by
  dsimp only
  rw [← List.sum_map_add, Selection.ofInventory, Selection.ofItems, List.map_map,
    ← sum_variantCount]
  congr 2
  funext p
  exact length_variants_add_omitted _ p.1 p.2

/-- Whenever a module is made, its numbers, its declarations and the summary of its inventory
account for every item once. -/
theorem isAccount_of_generate {inv : Inventory} {m : Module} (h : generate inv = .ok m) :
    IsAccount inv m (Selection.ofInventory inv) (Summary.ofInventory inv) := by
  obtain rfl := eq_of_generate h
  have hgathered := ofInventory_eq_selection inv
  have hstats : (Sections.ofInventory inv).stats =
      (Selection.ofInventory inv).stats inv.kindCounts.unknown := by rw [hgathered]
  have hstructs : (Selection.ofInventory inv).structs.length = inv.kindCounts.structs := by
    rw [Selection.ofInventory, Selection.ofItems, List.length_map]
    exact inv.length_structs
  have henums : (Selection.ofInventory inv).enums.length = inv.kindCounts.enums := by
    rw [Selection.ofInventory, Selection.ofItems, List.length_map]
    exact inv.length_enums
  have hroutes : (Selection.ofInventory inv).routes.length = inv.kindCounts.routes := by
    rw [Selection.ofInventory, Selection.ofItems, List.length_map]
    exact inv.length_routes
  constructor
  case gathered => rw [hstats, hgathered]
  case content => exact (text_ofInventory inv).symm
  case kindCounts => simp only [hstats, Selection.stats, hstructs, henums, hroutes]
  case counts => rfl
  case total =>
    simp only [hstats, Selection.stats, hstructs, henums, hroutes]
    exact countP_kinds inv.items
  case variants =>
    simp only [hstats, Selection.stats]
    exact sum_variants_ofInventory inv
  case structs => simp only [hstats, Selection.stats]
  case interfaces =>
    intro d hd
    obtain ⟨p, -, rfl⟩ := List.mem_map.mp hd
    exact ⟨_, _, rfl⟩
  case enumDeclarations =>
    simp only [hstats, Selection.stats]
    exact length_enumDeclarations _
  case routes => simp only [hstats, Selection.stats]
  case entries =>
    simp only [hstats, Selection.stats]
    exact List.length_map _
  case structNames =>
    rw [← inv.map_fst_structs, List.map_map]
    exact List.map_map
  case unionNames =>
    rw [← inv.map_fst_enums, List.map_map]
    exact List.map_map
  case functionNames =>
    rw [← inv.map_fst_routes, List.map_map]
    exact List.map_map
  case entryNames =>
    rw [Registry.ofFunctions, List.map_map]
    rfl
  case summaries =>
    rw [Summary.ofInventory, List.forall₂_map_right_iff]
    exact List.forall₂_same.mpr fun i _ => summarises_ofItem i

/-- An inventory with items of every kind and a variant that is left out. -/
def mingledInventory : Inventory where
  version := "1.0.0"
  items :=
    [{ name := "ping_all", doc := "", category := "", hidden := false, package := ""
       definition := .route ⟨"POST", "/ping", [], [], none, none, []⟩ },
     { name := "Reply", doc := "", category := "", hidden := false, package := ""
       definition := .enum ⟨none, false, none, none, [⟨"None", none, .unit⟩,
         ⟨"Text", none, .tuple "String"⟩]⟩ },
     { name := "Later", doc := "", category := "", hidden := false, package := ""
       definition := .unknown },
     { name := "Message", doc := "", category := "", hidden := true, package := ""
       definition := .struct ⟨[⟨"text", none, "String", false, false, false⟩]⟩ },
     { name := "Event", doc := "", category := "", hidden := false, package := ""
       definition := .enum ⟨some "type", false, none, none, [⟨"Ping", none, .unit⟩]⟩ }]

theorem isAccount_of_generate_mingledInventory :
    ∃ m, generate mingledInventory = .ok m ∧ m.stats = ⟨1, 2, 2, 1, 1, 1⟩ ∧
      IsAccount mingledInventory m (Selection.ofInventory mingledInventory)
        (Summary.ofInventory mingledInventory) := by
  have hcheck : findCycle? (declaredTypes mingledInventory) = none := by
    cbv
  obtain ⟨m, hm, hstats⟩ :
      ∃ m, generate mingledInventory = .ok m ∧ m.stats = ⟨1, 2, 2, 1, 1, 1⟩ := by
    rw [generate_eq, hcheck]
    exact ⟨_, rfl, rfl⟩
  exact ⟨m, hm, hstats, isAccount_of_generate hm⟩

end SchemaClient.Client
