import Mathlib.Data.List.Chain
import Mathlib.Logic.Relation
import SchemaClient.Client.Cycle

/-!
# The search finds every cycle

A name depends on what its last declaration lists. This file relates the depth-first search
to that relation: a search that ends without a cycle has only passed names from which every
chain of dependencies ends, and a cycle that it reports is a closed chain of dependencies.
-/

namespace SchemaClient.Client
open SchemaClient.Code Relation

/-- A declaration that no later one of its name replaces. -/
def IsLastOfName (ds : List Declaration) (d : Declaration) : Prop :=
  ∃ before after, ds = before ++ d :: after ∧ ∀ e ∈ after, e.name ≠ d.name

/-- The last declaration of the first name lists the second name. A name that is not declared
depends on nothing. -/
def DependsOn (ds : List Declaration) (a b : String) : Prop :=
  ∃ d, IsLastOfName ds d ∧ d.name = a ∧ b ∈ d.dependencies

namespace Dependencies

/-- The second name is among the successors of the first. -/
def Edge (g : Dependencies) (a b : String) : Prop :=
  ∃ ns, g.successors? a = some ns ∧ b ∈ ns

/-- Every chain of dependencies that starts at a name ends. -/
def Grounded (g : Dependencies) (n : String) : Prop :=
  Acc (fun b a => g.Edge a b) n

/-- Each name of a path is reached from the next one by an edge: the latest name comes first. -/
def IsPath (g : Dependencies) (path : List String) : Prop :=
  path.IsChain fun b a => g.Edge a b

/-- A chain of edges that ends with the name it begins with. -/
def IsClosedChain (g : Dependencies) (cycle : List String) : Prop :=
  cycle.IsChain g.Edge ∧ ∃ n inner, cycle = n :: inner ++ [n]

lemma grounded_of_successors {g : Dependencies} {n : String}
    (h : ∀ ns, g.successors? n = some ns → ∀ m ∈ ns, g.Grounded m) : g.Grounded n := by
  refine Acc.intro n ?_
  rintro m ⟨ns, hns, hm⟩
  exact h ns hns m hm

lemma Grounded.not_transGen {g : Dependencies} {n : String} (h : g.Grounded n) :
    ¬TransGen g.Edge n n := by
  have hacc : Acc (TransGen fun b a => g.Edge a b) n := Acc.transGen h
  clear h
  induction hacc with
  | intro n _ ih =>
    intro hcycle
    exact ih n (transGen_swap.mp hcycle) hcycle

lemma transGen_of_isChain {α : Type} {r : α → α → Prop} {a b : α} {inner : List α}
    (h : List.IsChain r (a :: inner ++ [b])) : TransGen r a b := by
  induction inner generalizing a with
  | nil => exact .single (List.isChain_pair.mp h)
  | cons c inner ih =>
    obtain ⟨hac, hrest⟩ := List.isChain_cons_cons.mp h
    exact .head hac (ih hrest)

lemma IsClosedChain.transGen {g : Dependencies} {cycle : List String} (h : g.IsClosedChain cycle) :
    ∃ n, TransGen g.Edge n n := by
  obtain ⟨hchain, n, inner, rfl⟩ := h
  exact ⟨n, transGen_of_isChain hchain⟩

lemma IsPath.cons {g : Dependencies} {path ns : List String} {n m : String}
    (h : g.IsPath (n :: path)) (hs : g.successors? n = some ns) (hm : m ∈ ns) :
    g.IsPath (m :: n :: path) :=
  List.isChain_cons_cons.mpr ⟨⟨ns, hs, hm⟩, h⟩

lemma isPrefix_takeWhile_ne {path : List String} {n : String} (hn : n ∈ path) :
    path.takeWhile (· != n) ++ [n] <+: path := by
  induction path with
  | nil => simp at hn
  | cons m path ih =>
    by_cases hm : m = n
    · simp [hm]
    · have hrest := ih (by simpa [Ne.symm hm] using hn)
      simpa [hm] using hrest

/-- A name that stands on the path already closes a chain. -/
lemma IsPath.isClosedChain_cycleOn {g : Dependencies} {path : List String} {n : String}
    (h : g.IsPath (n :: path)) (hn : n ∈ path) : g.IsClosedChain (cycleOn path n) := by
  refine ⟨?_, n, _, rfl⟩
  have hpath : n :: (path.takeWhile (· != n) ++ [n]) <+: n :: path :=
    (List.prefix_cons_inj n).mpr (isPrefix_takeWhile_ne hn)
  have hrev : (cycleOn path n).reverse = n :: (path.takeWhile (· != n) ++ [n]) := by
    simp [cycleOn]
  rw [← List.reverse_reverse (cycleOn path n), hrev, List.isChain_reverse]
  exact List.IsChain.prefix h hpath

lemma search_undeclared {g : Dependencies} {path done : List String} {n : String}
    (hdone : ¬done.contains n) (hpath : ¬path.contains n) (hs : g.successors? n = none) :
    g.search path done n = .ok done := by
  rw [search, if_neg hdone, dif_neg hpath]
  split
  · rfl
  · next hs' => simp [hs] at hs'

lemma search_declared {g : Dependencies} {path done ns : List String} {n : String}
    (hdone : ¬done.contains n) (hpath : ¬path.contains n) (hs : g.successors? n = some ns) :
    g.search path done n = (g.searchAll (n :: path) done ns).map (n :: ·) := by
  rw [search, if_neg hdone, dif_neg hpath]
  split
  · next hs' => simp [hs] at hs'
  · next ns' hs' =>
    obtain rfl : ns = ns' := by simpa [hs] using hs'
    split <;> next hall => rw [hall]; rfl

/-- What a search from the names `ns` may answer. If it ends well, those names and all names that
it has settled are grounded; if it finds a cycle, that is a closed chain. -/
def IsSoundAnswer (g : Dependencies) (path done ns : List String) :
    Except (List String) (List String) → Prop
  | .ok done' =>
    (∀ m ∈ done, g.Grounded m) → (∀ n ∈ ns, g.Grounded n) ∧ ∀ m ∈ done', g.Grounded m
  | .error cycle => (∀ n ∈ ns, g.IsPath (n :: path)) → g.IsClosedChain cycle

theorem search_sound (g : Dependencies) :
    (∀ path done n, g.IsSoundAnswer path done [n] (g.search path done n)) ∧
      ∀ path done ns, g.IsSoundAnswer path done ns (g.searchAll path done ns) := by
  apply search.mutual_induct g
  case case1 =>
    intro path done n hdone
    rw [search, if_pos hdone]
    intro hg
    refine ⟨?_, hg⟩
    simpa using hg n (by simpa using hdone)
  case case2 =>
    intro path done n hdone hpath
    rw [search, if_neg hdone, dif_pos hpath]
    intro h
    exact (h n (by simp)).isClosedChain_cycleOn (by simpa using hpath)
  case case3 =>
    intro path done n hdone hpath hs
    rw [search_undeclared hdone hpath hs]
    intro hg
    refine ⟨?_, hg⟩
    have hn : g.Grounded n := grounded_of_successors (by simp [hs])
    simpa using hn
  case case4 =>
    intro path done n hdone hpath ns hs cycle hall ih
    rw [search_declared hdone hpath hs, hall]
    rw [hall] at ih
    intro h
    exact ih fun m hm => (h n (by simp)).cons hs hm
  case case5 =>
    intro path done n hdone hpath ns hs done' hall ih
    rw [search_declared hdone hpath hs, hall]
    rw [hall] at ih
    intro hg
    obtain ⟨hns, hdone'⟩ := ih hg
    have hn : g.Grounded n := by
      apply grounded_of_successors
      intro ns' hs'
      obtain rfl : ns = ns' := by simpa [hs] using hs'
      exact hns
    exact ⟨by simpa using hn, by simpa using ⟨hn, hdone'⟩⟩
  case case6 =>
    intro path done
    rw [searchAll]
    intro hg
    exact ⟨by simp, hg⟩
  case case7 =>
    intro path done n ns cycle hn ih
    rw [searchAll, hn]
    rw [hn] at ih
    intro h
    exact ih (by simpa using h n (by simp))
  case case8 =>
    intro path done n ns done' hn ih ihs
    rw [hn] at ih
    rw [searchAll, hn]
    dsimp only
    cases hns : g.searchAll path done' ns with
    | error cycle =>
      rw [hns] at ihs
      intro h
      exact ihs fun m hm => h m (by simp [hm])
    | ok done'' =>
      rw [hns] at ihs
      intro hg
      obtain ⟨hgn, hg'⟩ := ih hg
      obtain ⟨hgns, hg''⟩ := ihs hg'
      exact ⟨by simpa using ⟨hgn n (by simp), hgns⟩, hg''⟩

lemma successors?_ofDeclarations {ds : List Declaration} {n : String} {ns : List String} :
    (ofDeclarations ds).successors? n = some ns ↔
      ∃ d, IsLastOfName ds d ∧ d.name = n ∧ d.dependencies = ns := by
  rw [successors?, ofDeclarations, ← List.map_reverse, List.lookup_eq_some_iff]
  constructor
  · rintro ⟨after, before, hds, hafter⟩
    obtain ⟨after, rest, hrev, rfl, hrest⟩ := List.map_eq_append_iff.mp hds
    obtain ⟨d, before, rfl, hd, rfl⟩ := List.map_eq_cons_iff.mp hrest
    obtain ⟨rfl, rfl⟩ := Prod.mk.inj hd
    have hds : ds = before.reverse ++ d :: after.reverse := by
      rw [← List.reverse_reverse ds, hrev]
      simp
    refine ⟨d, ⟨before.reverse, after.reverse, hds, ?_⟩, rfl, rfl⟩
    intro e he
    have hmem : (e.name, e.dependencies) ∈ after.map fun d => (d.name, d.dependencies) :=
      List.mem_map_of_mem (by simpa using he)
    have hne : d.name ≠ e.name := by simpa using hafter _ hmem
    exact hne.symm
  · rintro ⟨d, ⟨before, after, rfl, hafter⟩, rfl, rfl⟩
    refine ⟨after.reverse.map fun d => (d.name, d.dependencies),
      before.reverse.map fun d => (d.name, d.dependencies), by simp, ?_⟩
    intro p hp
    obtain ⟨e, he, rfl⟩ := List.mem_map.mp hp
    simpa using (hafter e (by simpa using he)).symm

lemma edge_ofDeclarations (ds : List Declaration) : (ofDeclarations ds).Edge = DependsOn ds := by
  funext a b
  simp only [Edge, DependsOn, successors?_ofDeclarations, eq_iff_iff]
  constructor
  · rintro ⟨ns, ⟨d, hlast, hname, rfl⟩, hb⟩
    exact ⟨d, hlast, hname, hb⟩
  · rintro ⟨d, hlast, hname, hb⟩
    exact ⟨d.dependencies, ⟨d, hlast, hname, rfl⟩, hb⟩

lemma Edge.mem_names {g : Dependencies} {a b : String} (h : g.Edge a b) : a ∈ g.map (·.1) := by
  obtain ⟨ns, hs, -⟩ := h
  exact List.mem_map.mpr ⟨(a, ns), mem_of_successors? hs, rfl⟩

/-- A search from all declared names settles whether there is a closed chain. -/
lemma searchAll_names_eq_ok_iff (g : Dependencies) :
    (∃ done, g.searchAll [] [] (g.map (·.1)) = .ok done) ↔ ∀ n, ¬TransGen g.Edge n n := by
  have hsound := (search_sound g).2 [] [] (g.map (·.1))
  cases hsearch : g.searchAll [] [] (g.map (·.1)) with
  | error cycle =>
    rw [hsearch] at hsound
    obtain ⟨n, hn⟩ := IsClosedChain.transGen (hsound fun n _ => List.isChain_singleton n)
    constructor
    · rintro ⟨done, hdone⟩
      simp at hdone
    · intro h
      exact absurd hn (h n)
  | ok done =>
    rw [hsearch] at hsound
    obtain ⟨hgrounded, -⟩ := hsound (by simp)
    refine ⟨fun _ n hn => ?_, fun _ => ⟨done, rfl⟩⟩
    obtain ⟨m, hm, -⟩ := TransGen.head'_iff.mp hn
    exact (hgrounded n hm.mem_names).not_transGen hn

end Dependencies

/-- The check passes exactly the declarations without a cycle of dependencies, however long the
cycle is and wherever it is entered. -/
theorem findCycle?_eq_none_iff (ds : List Declaration) :
    findCycle? ds = none ↔ ∀ n, ¬TransGen (DependsOn ds) n n := by
  rw [← Dependencies.edge_ofDeclarations, ← Dependencies.searchAll_names_eq_ok_iff]
  unfold findCycle?
  dsimp only
  split
  · next cycle hsearch => simp [hsearch]
  · next done hsearch => simp [hsearch]

end SchemaClient.Client
