import SchemaClient.Proofs.Cycle
import SchemaClient.Proofs.ModuleText

/-!
# Cycles among the types of a module

A module may declare a name several times: the name of a variant is joined from two names, which
may give the name of another item or of another variant. The check looks at the last declaration of
a name alone. So it finds all cycles of a module where the last declaration of each name lists what
the other ones list, and may miss one elsewhere.
-/

namespace SchemaClient.Client
open SchemaClient.Schema SchemaClient.Code Relation

/-- Some declaration of the first name lists the second name. -/
def Lists (ds : List Declaration) (a b : String) : Prop :=
  ∃ d ∈ ds, d.name = a ∧ b ∈ d.dependencies

/-- The last declaration of each name lists all that a declaration of this name lists. -/
def LastListsAll (ds : List Declaration) : Prop :=
  ∀ d ∈ ds, ∀ e, IsLastOfName ds e → e.name = d.name → d.dependencies ⊆ e.dependencies

lemma IsLastOfName.mem {ds : List Declaration} {d : Declaration} (h : IsLastOfName ds d) :
    d ∈ ds := by
  obtain ⟨before, after, rfl, -⟩ := h
  simp

lemma IsLastOfName.cons {ds : List Declaration} {d : Declaration} (h : IsLastOfName ds d)
    (x : Declaration) : IsLastOfName (x :: ds) d := by
  obtain ⟨before, after, rfl, hafter⟩ := h
  exact ⟨x :: before, after, rfl, hafter⟩

lemma exists_isLastOfName {ds : List Declaration} {d : Declaration} (hd : d ∈ ds) :
    ∃ e, IsLastOfName ds e ∧ e.name = d.name := by
  induction ds generalizing d with
  | nil => simp at hd
  | cons x ds ih =>
    by_cases hlater : ∃ e ∈ ds, e.name = d.name
    · obtain ⟨e, he, hname⟩ := hlater
      obtain ⟨f, hf, hfname⟩ := ih he
      exact ⟨f, hf.cons x, hfname.trans hname⟩
    · push Not at hlater
      have hdx : d = x := by
        rcases List.mem_cons.mp hd with rfl | hds
        · rfl
        · exact absurd rfl (hlater d hds)
      exact ⟨x, ⟨[], ds, rfl, hdx ▸ hlater⟩, hdx ▸ rfl⟩

lemma LastListsAll.lists_eq {ds : List Declaration} (h : LastListsAll ds) :
    Lists ds = DependsOn ds := by
  funext a b
  apply propext
  constructor
  · rintro ⟨d, hd, rfl, hb⟩
    obtain ⟨e, he, hname⟩ := exists_isLastOfName hd
    exact ⟨e, he, hname, h d hd e he hname hb⟩
  · rintro ⟨d, hd, hname, hb⟩
    exact ⟨d, hd.mem, hname, hb⟩

lemma lastListsAll_of_nodup {ds : List Declaration} (h : (ds.map (·.name)).Nodup) :
    LastListsAll ds := by
  intro d hd e he hname
  have hde : e = d := List.inj_on_of_nodup_map h he.mem hd hname
  rw [hde]
  exact fun _ hb => hb

lemma exists_generate_eq_ok_iff (inv : Inventory) :
    (∃ m, generate inv = .ok m) ↔ ∀ n, ¬TransGen (DependsOn (declaredTypes inv)) n n := by
  rw [generate_eq, ← Dependencies.edge_ofDeclarations, ← Dependencies.searchAll_names_eq_ok_iff]
  unfold findCycle?
  dsimp only
  cases (Dependencies.ofDeclarations (declaredTypes inv)).searchAll [] []
    ((Dependencies.ofDeclarations (declaredTypes inv)).map (·.1)) <;> simp

/-- Where the last declaration of each name lists all that its other declarations list, a module is
made for an inventory exactly if no declared type leads back to itself, whichever of the
declarations of a name are followed. -/
theorem exists_module_iff_not_leadsBack (inv : Inventory) (h : LastListsAll (declaredTypes inv)) :
    (∃ m, generate inv = .ok m) ↔ ∀ n, ¬TransGen (Lists (declaredTypes inv)) n n := by
  rw [exists_generate_eq_ok_iff, h.lists_eq]

/-- Structs and a variant that take in the members of a struct. -/
def layeredInventory : Inventory where
  version := "1.0.0"
  items :=
    [{ name := "Message", doc := "", category := "", hidden := false, package := ""
       definition := .struct ⟨[⟨"base", none, "Stamp", true, false, false⟩]⟩ },
     { name := "Event", doc := "", category := "", hidden := false, package := ""
       definition := .enum ⟨some "type", false, none, none,
         [⟨"Sent", none, .struct [⟨"message", none, "Message", true, false, false⟩]⟩]⟩ },
     { name := "Stamp", doc := "", category := "", hidden := false, package := ""
       definition := .struct ⟨[]⟩ }]

theorem exists_module_iff_not_leadsBack_layeredInventory :
    LastListsAll (declaredTypes layeredInventory) ∧
      ((∃ m, generate layeredInventory = .ok m) ↔
        ∀ n, ¬TransGen (Lists (declaredTypes layeredInventory)) n n) := by
  have hnames : (declaredTypes layeredInventory).map (·.name) =
      ["Message", "Stamp", "Event", "EventSent"] := rfl
  have hlast : LastListsAll (declaredTypes layeredInventory) :=
    lastListsAll_of_nodup (by rw [hnames]; decide)
  exact ⟨hlast, exists_module_iff_not_leadsBack layeredInventory hlast⟩

/-- A struct that takes in the members of an enum and has the name of the enum's only variant. -/
def clashingInventory : Inventory where
  version := "1.0.0"
  items :=
    [{ name := "AB", doc := "", category := "", hidden := false, package := ""
       definition := .struct ⟨[⟨"base", none, "A", true, false, false⟩]⟩ },
     { name := "A", doc := "", category := "", hidden := false, package := ""
       definition := .enum ⟨some "type", false, none, none, [⟨"B", none, .unit⟩]⟩ }]

lemma declaredTypes_clashingInventory : declaredTypes clashingInventory =
    [⟨"AB", none, .interface ["A"] []⟩, ⟨"A", none, .alias (.union [.ref "AB"])⟩,
     ⟨"AB", none, .interface [] [.required "type" (.literal "B") none]⟩] := by
  have hrules : TypeExpr.rules.findSome? (TypeExpr.Rule.reading? "A".toList) = none := rfl
  have htype : TypeExpr.typeOf "A" = .ref "A" := by
    rw [TypeExpr.typeOf, TypeExpr.typeOfChars, hrules, String.ofList_toList]
  have hbases : basesOfFields [⟨"base", none, "A", true, false, false⟩] = ["A"] := by
    simp [basesOfFields, htype, Ty.print]
  have htypes : declaredTypes clashingInventory =
      [⟨"AB", none, .interface (basesOfFields [⟨"base", none, "A", true, false, false⟩]) []⟩,
       ⟨"A", none, .alias (.union [.ref "AB"])⟩,
       ⟨"AB", none, .interface [] [.required "type" (.literal "B") none]⟩] := rfl
  rw [htypes, hbases]

/-- The check misses the cycle of the first declaration of a name. -/
theorem generate_clashingInventory :
    (clashingInventory.items.map (·.name)).Nodup ∧ (∃ m, generate clashingInventory = .ok m) ∧
      TransGen (Lists (declaredTypes clashingInventory)) "AB" "AB" := by
  refine ⟨by decide, ?_, ?_⟩
  · have hcheck : findCycle? (declaredTypes clashingInventory) = none := by
      rw [declaredTypes_clashingInventory]
      cbv
    rw [generate_eq, hcheck]
    exact ⟨_, rfl⟩
  · rw [declaredTypes_clashingInventory]
    apply TransGen.head (b := "A")
    · exact ⟨⟨"AB", none, .interface ["A"] []⟩, by simp, rfl, List.mem_singleton.mpr rfl⟩
    · apply TransGen.single
      exact ⟨⟨"A", none, .alias (.union [.ref "AB"])⟩, by simp, rfl, List.mem_singleton.mpr rfl⟩

end SchemaClient.Client
