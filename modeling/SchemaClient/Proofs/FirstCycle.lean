import Mathlib.Data.List.Nodup
import Mathlib.Data.List.TakeWhile
import SchemaClient.Proofs.Cycle

/-!
# The reported cycle

The search reports the first cycle in the order of declaration. The path mirrors the names under
way, so what is cut out of it passes no name twice; and whatever the search has settled before
leads into no cycle.
-/

namespace SchemaClient.Client
open SchemaClient.Code Relation

/-- Names that end with the first of them and pass no name twice otherwise. -/
def IsSimple (cycle : List String) : Prop :=
  ∃ n inner, cycle = n :: inner ++ [n] ∧ (n :: inner).Nodup

/-- A simple chain of declared names, each of which depends on the next one. -/
structure IsSimpleCycle (ds : List Declaration) (cycle : List String) : Prop where
  simple : IsSimple cycle
  declared : ∀ n ∈ cycle, ∃ d ∈ ds, d.name = n
  linked : cycle.IsChain (DependsOn ds)

/-- Dependencies lead from a name into a cycle. -/
def ReachesCycle (ds : List Declaration) (n : String) : Prop :=
  ∃ m, ReflTransGen (DependsOn ds) n m ∧ TransGen (DependsOn ds) m m

/-- The first declaration that leads into any cycle leads to all names of the given one. -/
def IsFirstCycle (ds : List Declaration) (cycle : List String) : Prop :=
  ∃ before d after, ds = before ++ d :: after ∧ (∀ e ∈ before, ¬ReachesCycle ds e.name) ∧
    ReachesCycle ds d.name ∧ ∀ n ∈ cycle, ReflTransGen (DependsOn ds) d.name n

namespace Dependencies

lemma isSimple_cycleOn {path : List String} {n : String} (h : path.Nodup) :
    IsSimple (cycleOn path n) := by
  refine ⟨n, (path.takeWhile (· != n)).reverse, rfl, ?_⟩
  have hbefore : (path.takeWhile (· != n)).Nodup := h.sublist (List.takeWhile_sublist _)
  have hn : n ∉ path.takeWhile (· != n) := by
    intro hmem
    have hne := List.mem_takeWhile_imp hmem
    simp at hne
  rw [List.nodup_cons]
  exact ⟨by simpa using hn, List.nodup_reverse.mpr hbefore⟩

lemma mem_of_mem_cycleOn {path : List String} {n m : String} (hm : m ∈ cycleOn path n) :
    m ∈ path ∨ m = n := by
  have hcases : m = n ∨ m ∈ path.takeWhile (· != n) := by
    simpa [cycleOn, or_comm, or_assoc] using hm
  rcases hcases with rfl | hpath
  · exact .inr rfl
  · exact .inl ((List.takeWhile_sublist _).subset hpath)

/-- Where the cycle comes from that a search from the names `ns` finds behind a path: it is simple,
and each of its names stands on the path or is reached from one of `ns`. -/
def IsTracedAnswer (g : Dependencies) (path ns : List String) :
    Except (List String) (List String) → Prop
  | .ok _ => True
  | .error cycle => path.Nodup →
      IsSimple cycle ∧ ∃ n ∈ ns, ∀ m ∈ cycle, m ∈ path ∨ ReflTransGen g.Edge n m

lemma IsTracedAnswer.behind {g : Dependencies} {path ns : List String} {n : String}
    {cycle : List String} (h : g.IsTracedAnswer (n :: path) ns (.error cycle))
    (hpath : n ∉ path) (hs : g.successors? n = some ns) :
    g.IsTracedAnswer path [n] (.error cycle) := by
  intro hnodup
  obtain ⟨hsimple, k, hk, hreach⟩ := h (List.nodup_cons.mpr ⟨hpath, hnodup⟩)
  refine ⟨hsimple, n, List.mem_singleton_self n, ?_⟩
  intro m hm
  rcases hreach m hm with hon | hm
  · rcases List.mem_cons.mp hon with rfl | hon
    · exact .inr .refl
    · exact .inl hon
  · exact .inr (.head ⟨ns, hs, hk⟩ hm)

lemma IsTracedAnswer.mono {g : Dependencies} {path ns ns' : List String}
    {r : Except (List String) (List String)} (h : g.IsTracedAnswer path ns r) (hns : ns ⊆ ns') :
    g.IsTracedAnswer path ns' r := by
  cases r with
  | ok done => exact trivial
  | error cycle =>
    intro hnodup
    obtain ⟨hsimple, n, hn, hreach⟩ := h hnodup
    exact ⟨hsimple, n, hns hn, hreach⟩

theorem search_traced (g : Dependencies) :
    (∀ path done n, g.IsTracedAnswer path [n] (g.search path done n)) ∧
      ∀ path done ns, g.IsTracedAnswer path ns (g.searchAll path done ns) := by
  apply search.mutual_induct g
  case case1 =>
    intro path done n hdone
    rw [search, if_pos hdone]
    exact trivial
  case case2 =>
    intro path done n hdone hpath
    rw [search, if_neg hdone, dif_pos hpath]
    intro hnodup
    refine ⟨isSimple_cycleOn hnodup, n, List.mem_singleton_self n, ?_⟩
    intro m hm
    rcases mem_of_mem_cycleOn hm with hm | rfl
    · exact .inl hm
    · exact .inr .refl
  case case3 =>
    intro path done n hdone hpath hs
    rw [search_undeclared hdone hpath hs]
    exact trivial
  case case4 =>
    intro path done n hdone hpath ns hs cycle hall ih
    rw [search_declared hdone hpath hs, hall]
    rw [hall] at ih
    exact ih.behind (by simpa using hpath) hs
  case case5 =>
    intro path done n hdone hpath ns hs done' hall _
    rw [search_declared hdone hpath hs, hall]
    exact trivial
  case case6 =>
    intro path done
    rw [searchAll]
    exact trivial
  case case7 =>
    intro path done n ns cycle hn ih
    rw [searchAll, hn]
    rw [hn] at ih
    exact ih.mono (by simp)
  case case8 =>
    intro path done n ns done' hn _ ihs
    rw [searchAll, hn]
    exact ihs.mono (List.subset_cons_self n ns)

/-- A search from names in order fails at one of them, after it has settled those before it. -/
lemma exists_of_searchAll_eq_error {g : Dependencies} {path done ns cycle : List String}
    (h : g.searchAll path done ns = .error cycle) : ∃ before n after done',
      ns = before ++ n :: after ∧ g.searchAll path done before = .ok done' ∧
        g.search path done' n = .error cycle := by
  induction ns generalizing done with
  | nil => simp [searchAll] at h
  | cons n ns ih =>
    rw [searchAll] at h
    cases hn : g.search path done n with
    | error c =>
      rw [hn] at h
      obtain rfl : c = cycle := Except.error.inj h
      exact ⟨[], n, ns, done, rfl, by rw [searchAll], hn⟩
    | ok done₁ =>
      rw [hn] at h
      obtain ⟨before, m, after, done', rfl, hbefore, hm⟩ := ih h
      refine ⟨n :: before, m, after, done', rfl, ?_, hm⟩
      rw [searchAll, hn]
      exact hbefore

lemma Grounded.reflTransGen {g : Dependencies} {n m : String} (h : g.Grounded n)
    (hm : ReflTransGen g.Edge n m) : g.Grounded m := by
  induction hm with
  | refl => exact h
  | tail _ hedge ih => exact Acc.inv ih hedge

/-- A failing search from all declared names has settled the names up to one that leads into the
cycle it reports. -/
lemma exists_of_searchAll_names {g : Dependencies} {ns cycle : List String}
    (h : g.searchAll [] [] ns = .error cycle) :
    IsSimple cycle ∧ g.IsClosedChain cycle ∧ ∃ before n after, ns = before ++ n :: after ∧
      (∀ m ∈ before, g.Grounded m) ∧ ∀ m ∈ cycle, ReflTransGen g.Edge n m := by
  obtain ⟨before, n, after, done, hns, hbefore, hn⟩ := exists_of_searchAll_eq_error h
  have hsound := (search_sound g).1 [] done n
  have htraced := (search_traced g).1 [] done n
  have hsettled := (search_sound g).2 [] [] before
  rw [hn] at hsound htraced
  rw [hbefore] at hsettled
  obtain ⟨hsimple, k, hk, hreach⟩ := htraced List.nodup_nil
  obtain rfl : k = n := List.mem_singleton.mp hk
  have hchain : g.IsClosedChain cycle := hsound fun n _ => List.isChain_singleton n
  refine ⟨hsimple, hchain, before, k, after, hns, (hsettled (by simp)).1, ?_⟩
  intro m hm
  have hcases := hreach m hm
  simpa using hcases

lemma exists_rel_of_isChain {α : Type} {r : α → α → Prop} {l : List α} {a b : α}
    (h : List.IsChain r (l ++ [b])) (ha : a ∈ l) : ∃ c, r a c := by
  induction l with
  | nil => exact absurd ha List.not_mem_nil
  | cons x l ih =>
    rcases List.mem_cons.mp ha with rfl | ha
    · cases l with
      | nil => exact ⟨b, List.isChain_pair.mp h⟩
      | cons y l => exact ⟨y, (List.isChain_cons_cons.mp h).1⟩
    · exact ih h.tail ha

end Dependencies

/-- The reported cycle is a simple one, and the first one in the order of declaration. -/
theorem isSimpleCycle_of_findCycle? {ds : List Declaration} {cycle : List String}
    (h : findCycle? ds = some cycle) : IsSimpleCycle ds cycle ∧ IsFirstCycle ds cycle := by
  have hsearch : (Dependencies.ofDeclarations ds).searchAll [] [] (ds.map (·.name)) =
      .error cycle := by
    have hnames : (Dependencies.ofDeclarations ds).map (·.1) = ds.map (·.name) := by
      simp [Dependencies.ofDeclarations]
    rw [← hnames]
    unfold findCycle? at h
    dsimp only at h
    split at h
    · next c hc => rw [hc, Option.some.inj h]
    · cases h
  obtain ⟨hsimple, ⟨hchain, -⟩, names, n, rest, hsplit, hgrounded, hreach⟩ :=
    Dependencies.exists_of_searchAll_names hsearch
  have hedge : (Dependencies.ofDeclarations ds).Edge = DependsOn ds :=
    Dependencies.edge_ofDeclarations ds
  rw [hedge] at hchain hreach
  obtain ⟨before, others, rfl, rfl, hothers⟩ := List.map_eq_append_iff.mp hsplit
  obtain ⟨d, after, rfl, rfl, rfl⟩ := List.map_eq_cons_iff.mp hothers
  obtain ⟨k, inner, rfl, hnodup⟩ := hsimple
  have hdeclared : ∀ m ∈ k :: inner, ∃ e ∈ before ++ d :: after, e.name = m := by
    intro m hm
    obtain ⟨_, e, ⟨front, back, hds, -⟩, hname, -⟩ := Dependencies.exists_rel_of_isChain hchain hm
    exact ⟨e, by rw [hds]; simp, hname⟩
  refine ⟨⟨⟨k, inner, rfl, hnodup⟩, ?_, hchain⟩, before, d, after, rfl, ?_, ?_, hreach⟩
  · intro m hm
    rcases List.mem_append.mp hm with hm | hm
    · exact hdeclared m hm
    · exact hdeclared m (by simpa using Or.inl (List.mem_singleton.mp hm))
  · rintro e he ⟨m, hem, hm⟩
    rw [← hedge] at hem hm
    have hground := hgrounded e.name (List.mem_map_of_mem he)
    exact (hground.reflTransGen hem).not_transGen hm
  · exact ⟨k, hreach k (by simp), Dependencies.transGen_of_isChain hchain⟩

/-- An interface that takes in another one, which an alias leads back to. -/
def windingDeclarations : List Declaration :=
  [⟨"Plain", none, .interface ["Missing"] []⟩, ⟨"Entry", none, .interface ["Plain", "Turn"] []⟩,
   ⟨"Turn", none, .alias (.union [.ref "Plain", .ref "Back"])⟩,
   ⟨"Back", none, .interface ["Turn", "Back"] []⟩]

theorem isSimpleCycle_of_findCycle?_windingDeclarations :
    findCycle? windingDeclarations = some ["Turn", "Back", "Turn"] ∧
      IsSimpleCycle windingDeclarations ["Turn", "Back", "Turn"] ∧
      IsFirstCycle windingDeclarations ["Turn", "Back", "Turn"] := by
  have hfind : findCycle? windingDeclarations = some ["Turn", "Back", "Turn"] := by cbv
  exact ⟨hfind, isSimpleCycle_of_findCycle? hfind⟩

end SchemaClient.Client
