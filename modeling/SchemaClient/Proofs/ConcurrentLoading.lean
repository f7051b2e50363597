import Mathlib.Data.List.Infix
import Mathlib.Logic.Relation
import Mathlib.Tactic.Lemma
import SchemaClient.Load.Loading
import SchemaClient.Proofs.SchemaRoundTrip

/-!
# Loading several items at a time

Reads are started in the order of the index and may end in any order. This file describes all ways
in which a loading may go by single steps, and shows that every one of them ends, and ends with what
the reads give one after the other: the items up to the first failure in the order of the index,
and that failure. Then it shows that loading a source is one of these ways: each of its turns is
such a step, so that no state it goes through has more reads under way than the window allows.
-/

namespace SchemaClient.Load
open SchemaClient.Schema SchemaClient.Store SchemaClient.Text Relation

/-- What results come to in their order, up to the first failure. -/
def Delivery.ofResults : List (Except Failure Item) → Delivery
  | [] => ⟨[], none⟩
  | .error e :: _ => ⟨[], some e⟩
  | .ok item :: rs => ⟨item :: (ofResults rs).items, (ofResults rs).failure⟩

lemma Delivery.ofResults_append (items : List Item) (rs : List (Except Failure Item)) :
    ofResults (items.map .ok ++ rs) = ⟨items ++ (ofResults rs).items, (ofResults rs).failure⟩ := by
  induction items with
  | nil => rfl
  | cons item items ih => rw [List.map_cons, List.cons_append, ofResults, ih]; rfl

namespace Loading

/-- One step of a loading. `answer` tells how the read of a path at a position of the index ends,
whenever it ends. -/
inductive Step (window : Nat) (answer : Nat → String → Except Failure Item) :
    Loading → Loading → Prop
  | start {p : String} {ps : List String} {fs : List Flight} {items : List Item}
      (h : fs.length < max 1 window) : Step window answer ⟨p :: ps, fs, items⟩
        ⟨ps, fs ++ [⟨p, none⟩], items⟩
  | settle {ps : List String} {fs : List Flight} {items : List Item} {i : Nat} {f : Flight}
      (hf : fs[i]? = some f) (hr : f.result = none) : Step window answer ⟨ps, fs, items⟩
        ⟨ps, settle i (answer (items.length + i) f.path) fs, items⟩
  | deliver {ps : List String} {fs : List Flight} {items : List Item} {p : String} {item : Item} :
      Step window answer ⟨ps, ⟨p, some (.ok item)⟩ :: fs, items⟩ ⟨ps, fs, items ++ [item]⟩

/-- What a loading has come to, if it is over. -/
def outcome? : Loading → Option Delivery
  | ⟨[], [], items⟩ => some ⟨items, none⟩
  | ⟨_, ⟨_, some (.error e)⟩ :: _, items⟩ => some ⟨items, some e⟩
  | _ => none

/-- How many reads are under way. -/
def inFlight (l : Loading) : Nat :=
  l.flights.countP (·.isPending)

variable {window : Nat} {answer : Nat → String → Except Failure Item}

lemma settle_eq_modify (i : Nat) (r : Except Failure Item) (fs : List Flight) :
    settle i r fs = fs.modify i fun f => { f with result := some r } := by
  induction fs generalizing i with
  | nil => simp [settle]
  | cons f fs ih =>
    cases i with
    | zero => simp [settle]
    | succ i => simp [settle, ih]

lemma map_path_settle (i : Nat) (r : Except Failure Item) (fs : List Flight) :
    (settle i r fs).map (·.path) = fs.map (·.path) := by
  induction fs generalizing i with
  | nil => simp [settle]
  | cons f fs ih =>
    cases i with
    | zero => simp [settle]
    | succ i => simp [settle, ih]

lemma Step.remaining_lt {l l' : Loading} (h : Step window answer l l') :
    l'.remaining < l.remaining := by
  cases h with
  | @start p ps fs items h => exact remaining_start p ps fs items
  | @settle ps fs items i f hf hr =>
    exact remaining_settle ps _ items (by simp [hf, Flight.isPending, hr])
  | @deliver ps fs items p item => exact remaining_deliver ps p item fs items

/-- No loading goes on for ever. -/
lemma wellFounded_step : WellFounded fun l' l => Step window answer l l' :=
  Subrelation.wf (fun h => Step.remaining_lt h) (measure remaining).wf

/-- A loading that is not over can go on. -/
lemma exists_step {l : Loading} (h : l.outcome? = none) : ∃ l', Step window answer l l' := by
  obtain ⟨ps, fs, items⟩ := l
  cases fs with
  | nil =>
    cases ps with
    | nil => simp [outcome?] at h
    | cons p ps => exact ⟨_, .start (Nat.lt_of_lt_of_le Nat.one_pos (Nat.le_max_left 1 window))⟩
  | cons f fs =>
    obtain ⟨p, r⟩ := f
    match r with
    | none => exact ⟨_, .settle (i := 0) rfl rfl⟩
    | some (.ok item) => exact ⟨_, .deliver⟩
    | some (.error e) => simp [outcome?] at h

/-- What all states of a loading have in common: `paths` is the index. -/
structure Tracks (window : Nat) (answer : Nat → String → Except Failure Item)
    (paths : List String) (l : Loading) : Prop where
  delivered : l.items.map .ok <+: paths.mapIdx answer
  ahead : paths.drop l.items.length = l.flights.map (·.path) ++ l.waiting
  settled : ∀ i f r, l.flights[i]? = some f → f.result = some r →
    r = answer (l.items.length + i) f.path
  within : l.flights.length ≤ max 1 window

lemma tracks_start (paths : List String) : Tracks window answer paths (start paths) where
  delivered := List.nil_prefix
  ahead := rfl
  settled := by simp [start]
  within := by simp [start]

/-- The result of the first read that has not been delivered. -/
lemma Tracks.getElem?_results {paths ps : List String} {f : Flight} {fs : List Flight}
    {items : List Item} {r : Except Failure Item}
    (h : Tracks window answer paths ⟨ps, f :: fs, items⟩) (hr : f.result = some r) :
    (paths.mapIdx answer)[items.length]? = some r := by
  have hpath : paths[items.length]? = some f.path := by
    have hahead : paths.drop items.length = f.path :: (fs.map (·.path) ++ ps) := h.ahead
    rw [← List.head?_drop, hahead, List.head?_cons]
  have hanswer : r = answer (items.length + 0) f.path := h.settled 0 f r rfl hr
  rw [List.getElem?_mapIdx, hpath, hanswer]
  rfl

lemma prefix_concat {α : Type} {xs ys : List α} {y : α} (h : xs <+: ys)
    (hy : ys[xs.length]? = some y) : xs ++ [y] <+: ys := by
  obtain ⟨rest, rfl⟩ := h
  cases rest with
  | nil => simp at hy
  | cons z rest =>
    obtain rfl : z = y := by simpa using hy
    exact ⟨rest, by simp⟩

lemma Tracks.step {paths : List String} {l l' : Loading} (hl : Tracks window answer paths l)
    (h : Step window answer l l') : Tracks window answer paths l' := by
  cases h with
  | @start p ps fs items h =>
    refine ⟨hl.delivered, ?_, ?_, ?_⟩
    · have hahead : paths.drop items.length = fs.map (·.path) ++ p :: ps := hl.ahead
      simp [hahead]
    · intro i f r hf hr
      by_cases hi : i < fs.length
      · rw [List.getElem?_append_left hi] at hf
        exact hl.settled i f r hf hr
      · rw [List.getElem?_append_right (Nat.le_of_not_lt hi), List.getElem?_singleton] at hf
        split at hf
        · cases hf
          simp at hr
        · simp at hf
    · rw [List.length_append]
      exact h
  | @settle ps fs items i f hf hr =>
    refine ⟨hl.delivered, ?_, ?_, ?_⟩
    · rw [map_path_settle]
      exact hl.ahead
    · intro j g r' hg hr'
      rw [settle_eq_modify, List.getElem?_modify] at hg
      obtain ⟨g₀, hg₀, rfl⟩ := Option.map_eq_some_iff.mp hg
      by_cases hij : i = j
      · subst hij
        obtain rfl : f = g₀ := Option.some.inj (hf.symm.trans hg₀)
        simpa using hr'.symm
      · simp only [if_neg hij] at hr' ⊢
        exact hl.settled j g₀ r' hg₀ hr'
    · rw [settle_eq_modify, List.length_modify]
      exact hl.within
  | @deliver ps fs items p item =>
    refine ⟨?_, ?_, ?_, ?_⟩
    · have hnext := hl.getElem?_results rfl
      rw [List.map_append]
      exact prefix_concat hl.delivered (by rwa [List.length_map])
    · have hahead : paths.drop items.length = p :: (fs.map (·.path) ++ ps) := hl.ahead
      rw [List.length_append, List.length_singleton, ← List.drop_drop, hahead, List.drop_one,
        List.tail_cons]
    · intro i f r hf hr
      rw [List.length_append, List.length_singleton, Nat.add_assoc, Nat.add_comm 1]
      exact hl.settled (i + 1) f r hf hr
    · exact Nat.le_of_succ_le hl.within

lemma Tracks.reaches {paths : List String} {l : Loading}
    (h : ReflTransGen (Step window answer) (start paths) l) : Tracks window answer paths l := by
  induction h with
  | refl => exact tracks_start paths
  | tail _ hstep ih => exact ih.step hstep

lemma Tracks.inFlight_le {paths : List String} {l : Loading} (h : Tracks window answer paths l) :
    l.inFlight ≤ max 1 window :=
  List.countP_le_length.trans h.within

lemma Tracks.items_prefix {paths : List String} {l : Loading} (h : Tracks window answer paths l) :
    l.items <+: (Delivery.ofResults (paths.mapIdx answer)).items := by
  obtain ⟨rest, hrest⟩ := h.delivered
  rw [← hrest, Delivery.ofResults_append]
  exact List.prefix_append _ _

/-- A loading that is over has come to what the results come to in their order. -/
lemma Tracks.outcome?_eq {paths : List String} {l : Loading} {d : Delivery}
    (h : Tracks window answer paths l) (hd : l.outcome? = some d) :
    d = Delivery.ofResults (paths.mapIdx answer) := by
  obtain ⟨rest, hrest⟩ := h.delivered
  unfold outcome? at hd
  split at hd
  · next items =>
    have hlength : paths.length ≤ items.length := List.drop_eq_nil_iff.mp h.ahead
    have hnil : rest = [] := by
      have hsum := congrArg List.length hrest
      simp only [List.length_append, List.length_map, List.length_mapIdx] at hsum
      exact List.eq_nil_of_length_eq_zero (by omega)
    cases hd
    rw [← hrest, hnil, Delivery.ofResults_append]
    simp [Delivery.ofResults]
  · next ps p e fs items =>
    have hnext := h.getElem?_results rfl
    rw [← hrest] at hnext
    cases rest with
    | nil => simp at hnext
    | cons r rest =>
      obtain rfl : r = .error e := by simpa using hnext
      cases hd
      rw [← hrest, Delivery.ofResults_append]
      simp [Delivery.ofResults]
  · simp at hd

/-- Whether the read at a position of the index has ended. -/
def HasEnded (l : Loading) (k : Nat) : Prop :=
  ∀ i, l.items.length + i = k → ∃ f, l.flights[i]? = some f ∧ f.result ≠ none

lemma HasEnded.step {l l' : Loading} {k : Nat} (hk : l.HasEnded k) (h : Step window answer l l') :
    l'.HasEnded k := by
  cases h with
  | @start p ps fs items h =>
    intro i hi
    obtain ⟨f, hf, hr⟩ := hk i hi
    exact ⟨f, by rw [List.getElem?_append_left (List.getElem?_eq_some_iff.mp hf).1, hf], hr⟩
  | @settle ps fs items j f hf hr =>
    intro i hi
    obtain ⟨g, hg, hr'⟩ := hk i hi
    rw [settle_eq_modify, List.getElem?_modify, hg]
    refine ⟨_, rfl, ?_⟩
    split
    · simp
    · exact hr'
  | @deliver ps fs items p item =>
    intro i hi
    rw [List.length_append, List.length_singleton, Nat.add_assoc, Nat.add_comm 1] at hi
    exact hk (i + 1) hi

/-- What a read that has ended would answer again plays no part. -/
lemma reaches_update {l l' : Loading} {k : Nat} (g : String → Except Failure Item)
    (hk : l.HasEnded k) (h : ReflTransGen (Step window answer) l l') :
    ReflTransGen (Step window (Function.update answer k g)) l l' := by
  induction h using ReflTransGen.head_induction_on with
  | refl => exact .refl
  | head hstep hrest ih =>
    refine .head ?_ (ih (hk.step hstep))
    cases hstep with
    | start h => exact .start h
    | deliver => exact .deliver
    | @settle ps fs items i f hf hr =>
      have hne : items.length + i ≠ k := by
        intro hi
        obtain ⟨f', hf', hr'⟩ := hk i hi
        cases hf.symm.trans hf'
        exact hr' hr
      have hsame : answer (items.length + i) = Function.update answer k g (items.length + i) :=
        (Function.update_of_ne hne g answer).symm
      rw [hsame]
      exact .settle hf hr

section Run

variable {σ : Type} {fetch : String → StateM σ (Except Failure Item)} {prefer : Loading → Nat}

lemma run_bind {α β : Type} (x : StateM σ α) (f : α → StateM σ β) (u : σ) :
    (x >>= f).run u = (f (x.run u).1).run (x.run u).2 :=
  rfl

/-- One read leads from a state to another. -/
def IsRead (fetch : String → StateM σ (Except Failure Item)) (u v : σ) : Prop :=
  ∃ p, v = ((fetch p).run u).2

/-- Whether `answer` tells what the reads of documents give, each after some other reads. -/
def IsAnswer (fetch : String → StateM σ (Except Failure Item)) (u : σ)
    (answer : Nat → String → Except Failure Item) : Prop :=
  ∀ k p, ∃ v, ReflTransGen (IsRead fetch) u v ∧ answer k p = ((fetch p).run v).1

lemma IsAnswer.update {u v : σ} {p : String} (h : IsAnswer fetch v answer)
    (hv : v = ((fetch p).run u).2) (k : Nat) :
    IsAnswer fetch u (Function.update answer k fun q => ((fetch q).run u).1) := by
  intro k' q
  by_cases hk : k' = k
  · subst hk
    exact ⟨u, .refl, by rw [Function.update_self]⟩
  · obtain ⟨w, hw, hanswer⟩ := h k' q
    exact ⟨w, .head ⟨p, hv⟩ hw, by rw [Function.update_of_ne hk, hanswer]⟩

/-- How a turn may go, and the steps it may be. -/
inductive Turned (fetch : String → StateM σ (Except Failure Item)) (window : Nat) (l : Loading)
    (u : σ) : Turn l × σ → Prop
  | done {d : Delivery} (h : l.outcome? = some d) : Turned fetch window l u (.done d, u)
  | still {l' : Loading} {less : l'.remaining < l.remaining}
      (h : ∀ answer, Step window answer l l') : Turned fetch window l u (.next l' less, u)
  | read {l' : Loading} {less : l'.remaining < l.remaining} {k : Nat} {p : String}
      (hk : l'.HasEnded k)
      (h : ∀ answer : Nat → String → Except Failure Item,
        answer k p = ((fetch p).run u).1 → Step window answer l l') :
      Turned fetch window l u (.next l' less, ((fetch p).run u).2)

lemma turned_receive (prefer : Loading → Nat) {l : Loading} (h : l.flights = [] → l.waiting = [])
    (u : σ) : Turned fetch window l u ((receive fetch prefer l).run u) := by
  match l with
  | ⟨ps, [], items⟩ =>
    obtain rfl : ps = [] := h rfl
    exact .done rfl
  | ⟨ps, ⟨p, some (.error e)⟩ :: fs, items⟩ => exact .done (by cases ps <;> rfl)
  | ⟨ps, ⟨p, some (.ok item)⟩ :: fs, items⟩ => exact .still fun _ => .deliver
  | ⟨ps, ⟨p, none⟩ :: fs, items⟩ =>
    obtain ⟨g, hg, hpending⟩ : ∃ g, (⟨p, none⟩ :: fs)[next (prefer ⟨ps, ⟨p, none⟩ :: fs, items⟩)
        (⟨p, none⟩ :: fs)]? = some g ∧ g.result = none := by
      simpa [Option.any_eq_true, Flight.isPending] using
        pending_next (prefer ⟨ps, ⟨p, none⟩ :: fs, items⟩) fs (f := ⟨p, none⟩) rfl
    refine .read (k := items.length + next (prefer ⟨ps, ⟨p, none⟩ :: fs, items⟩) (⟨p, none⟩ :: fs))
      ?_ fun answer hanswer => ?_
    · intro j hj
      obtain rfl := Nat.add_left_cancel hj
      rw [settle_eq_modify, List.getElem?_modify, hg]
      simp
    · have hsettle : Step window answer ⟨ps, ⟨p, none⟩ :: fs, items⟩ _ := .settle hg hpending
      rw [hg, Option.getD_some] at hanswer ⊢
      rw [hanswer] at hsettle
      exact hsettle

lemma turned_turn (prefer : Loading → Nat) (l : Loading) (u : σ) :
    Turned fetch window l u ((turn fetch window prefer l).run u) := by
  match l with
  | ⟨[], fs, items⟩ => exact turned_receive prefer (fun _ => rfl) u
  | ⟨p :: ps, fs, items⟩ =>
    rw [turn]
    split
    · next hroom => exact .still fun _ => .start hroom
    · next hroom =>
      refine turned_receive prefer (fun hfs => absurd ?_ hroom) u
      obtain rfl : fs = [] := hfs
      exact Nat.lt_of_lt_of_le Nat.one_pos (Nat.le_max_left 1 window)

/-- One turn of a run leads from a state of the loading, with what reading has changed so far, to
another. -/
def Turns (fetch : String → StateM σ (Except Failure Item)) (window : Nat)
    (prefer : Loading → Nat) (x y : Loading × σ) : Prop :=
  ∃ less, (turn fetch window prefer x.1).run x.2 = (.next y.1 less, y.2)

lemma run_of_done {l : Loading} {u v : σ} {d : Delivery}
    (h : (turn fetch window prefer l).run u = (.done d, v)) :
    (run fetch window prefer l).run u = (d, v) := by
  rw [run, run_bind, h]
  rfl

lemma run_of_next {l l' : Loading} {u v : σ} {less : l'.remaining < l.remaining}
    (h : (turn fetch window prefer l).run u = (.next l' less, v)) :
    (run fetch window prefer l).run u = (run fetch window prefer l').run v := by
  rw [run, run_bind, h]

/-- How a run goes from a state `l` to its last state `x`, where it comes to `d`. -/
structure RunsTo (fetch : String → StateM σ (Except Failure Item)) (window : Nat)
    (prefer : Loading → Nat) (l : Loading) (u : σ) (answer : Nat → String → Except Failure Item)
    (x : Loading × σ) (d : Delivery) : Prop where
  /-- `answer` is made of what reads of the documents give. -/
  answers : IsAnswer fetch u answer
  turns : ReflTransGen (Turns fetch window prefer) (l, u) x
  ends : (turn fetch window prefer x.1).run x.2 = (.done d, x.2)
  outcome : x.1.outcome? = some d
  result : (run fetch window prefer l).run u = (d, x.2)
  /-- All states that the run goes through are reached by single steps, with one answer. -/
  steps : ∀ y, ReflTransGen (Turns fetch window prefer) (l, u) y →
    ReflTransGen (Step window answer) l y.1

lemma RunsTo.of_done {l : Loading} {u : σ} {d : Delivery}
    (h : (turn fetch window prefer l).run u = (.done d, u)) (hd : l.outcome? = some d) :
    RunsTo fetch window prefer l u (fun _ p => ((fetch p).run u).1) (l, u) d where
  answers := fun _ _ => ⟨u, .refl, rfl⟩
  turns := .refl
  ends := h
  outcome := hd
  result := run_of_done h
  steps := by
    intro y hy
    cases hy.cases_head with
    | inl heq => exact heq ▸ .refl
    | inr hnext =>
      obtain ⟨z, ⟨less, hz⟩, -⟩ := hnext
      cases h.symm.trans hz

lemma RunsTo.of_next {l l' : Loading} {u v : σ} {less : l'.remaining < l.remaining}
    {answer' : Nat → String → Except Failure Item} {x : Loading × σ} {d : Delivery}
    (h : RunsTo fetch window prefer l' v answer x d)
    (hturn : (turn fetch window prefer l).run u = (.next l' less, v))
    (hanswer : IsAnswer fetch u answer') (hstep : Step window answer' l l')
    (hlift : ∀ m, ReflTransGen (Step window answer) l' m →
      ReflTransGen (Step window answer') l' m) :
    RunsTo fetch window prefer l u answer' x d where
  answers := hanswer
  turns := .head ⟨less, hturn⟩ h.turns
  ends := h.ends
  outcome := h.outcome
  result := (run_of_next hturn).trans h.result
  steps := by
    intro y hy
    cases hy.cases_head with
    | inl heq => exact heq ▸ .refl
    | inr hnext =>
      obtain ⟨⟨m, w⟩, ⟨less', hm⟩, hrest⟩ := hnext
      cases hturn.symm.trans hm
      exact .head hstep (hlift _ (h.steps y hrest))

/-- A run goes by single steps, whichever read it prefers, and one answer explains them all. -/
lemma run_reaches (fetch : String → StateM σ (Except Failure Item)) (window : Nat)
    (prefer : Loading → Nat) (l : Loading) (u : σ) :
    ∃ answer x d, RunsTo fetch window prefer l u answer x d := by
  induction l using run.induct generalizing u with
  | case1 l ih =>
    generalize hturn : (turn fetch window prefer l).run u = y
    have hturned : Turned fetch window l u y := hturn ▸ turned_turn prefer l u
    cases hturned with
    | done houtcome => exact ⟨_, _, _, .of_done hturn houtcome⟩
    | @still l' less hstep =>
      obtain ⟨answer, x, d, hrest⟩ := ih l' less u
      exact ⟨answer, x, d, hrest.of_next hturn hrest.answers (hstep answer) fun _ h => h⟩
    | @read l' less k p hended hstep =>
      obtain ⟨answer, x, d, hrest⟩ := ih l' less ((fetch p).run u).2
      refine ⟨Function.update answer k fun q => ((fetch q).run u).1, x, d, hrest.of_next hturn
        (hrest.answers.update rfl k) (hstep _ ?_) fun _ h => reaches_update _ hended h⟩
      rw [Function.update_self]

section Start

variable {paths : List String} {u : σ} {x : Loading × σ} {d : Delivery}

lemma RunsTo.inFlight_le (h : RunsTo fetch window prefer (start paths) u answer x d)
    {y : Loading × σ} (hy : ReflTransGen (Turns fetch window prefer) (start paths, u) y) :
    y.1.inFlight ≤ max 1 window :=
  (Tracks.reaches (h.steps y hy)).inFlight_le

lemma RunsTo.eq_ofResults (h : RunsTo fetch window prefer (start paths) u answer x d) :
    d = .ofResults (paths.mapIdx answer) :=
  (Tracks.reaches (h.steps x h.turns)).outcome?_eq h.outcome

end Start

/-- Whether reading one document changes nothing about what reading another gives. -/
def IsSteady (fetch : String → StateM σ (Except Failure Item)) : Prop :=
  ∀ p q u, ((fetch p).run ((fetch q).run u).2).1 = ((fetch p).run u).1

lemma IsSteady.fetch_eq (hfetch : IsSteady fetch) {u v : σ} (h : ReflTransGen (IsRead fetch) u v)
    (p : String) : ((fetch p).run v).1 = ((fetch p).run u).1 := by
  induction h with
  | refl => rfl
  | tail _ hread ih =>
    obtain ⟨q, rfl⟩ := hread
    rw [hfetch, ih]

lemma IsSteady.answer_eq (hfetch : IsSteady fetch) {u : σ} (h : IsAnswer fetch u answer) :
    answer = fun _ p => ((fetch p).run u).1 := by
  funext k p
  obtain ⟨v, hv, hanswer⟩ := h k p
  rw [hanswer, hfetch.fetch_eq hv]

/-- Reading one document after the other. -/
lemma inOrder_run (hfetch : IsSteady fetch) (paths : List String) (u : σ) :
    ((inOrder fetch paths).run u).1 = .ofResults (paths.map fun p => ((fetch p).run u).1) := by
  induction paths generalizing u with
  | nil => rfl
  | cons p ps ih =>
    rw [inOrder, run_bind, List.map_cons]
    match hp : ((fetch p).run u).1 with
    | .error e => rfl
    | .ok item =>
      have hrest := ih ((fetch p).run u).2
      simp only [hfetch _ p u] at hrest
      rw [Delivery.ofResults, ← hrest]
      rfl

end Run

end Loading

/-- Loads the inventory of a source without any two reads at a time. -/
def loadInOrder {m : Type → Type} [Monad m] (s : Source m) : m Loaded := do
  match ← s.fetchIndex with
  | .error e => return ⟨[], .error e⟩
  | .ok index =>
    let d ← Loading.inOrder s.fetchItem index.items
    return d.toLoaded index.version

section Load

variable {σ : Type} {s : Source (StateM σ)} {window : Nat} {prefer : Loading → Nat} {t t' : σ}

lemma load_of_error {e : Failure} (h : s.fetchIndex.run t = (.error e, t')) :
    (load s window prefer).run t = (⟨[], .error e⟩, t') := by
  rw [load, Loading.run_bind, h]
  rfl

lemma load_of_index {index : Index} (h : s.fetchIndex.run t = (.ok index, t')) {d : Delivery}
    {u : σ} (hrun : (Loading.run s.fetchItem window prefer (.start index.items)).run t' = (d, u)) :
    (load s window prefer).run t = (d.toLoaded index.version, u) := by
  rw [load, Loading.run_bind, h]
  dsimp only
  rw [Loading.run_bind, hrun]
  rfl

lemma loadInOrder_of_error {e : Failure} (h : s.fetchIndex.run t = (.error e, t')) :
    (loadInOrder s).run t = (⟨[], .error e⟩, t') := by
  rw [loadInOrder, Loading.run_bind, h]
  rfl

lemma loadInOrder_of_index {index : Index} (h : s.fetchIndex.run t = (.ok index, t')) :
    ((loadInOrder s).run t).1 = Delivery.toLoaded index.version
      ((Loading.inOrder s.fetchItem index.items).run t').1 := by
  rw [loadInOrder, Loading.run_bind, h]
  rfl

lemma load_eq_loadInOrder (hs : Loading.IsSteady s.fetchItem) :
    ((load s window prefer).run t).1 = ((loadInOrder s).run t).1 := by
  match h : s.fetchIndex.run t with
  | (.error e, t') => rw [load_of_error h, loadInOrder_of_error h]
  | (.ok index, t') =>
    obtain ⟨answer, x, d, hrun⟩ :=
      Loading.run_reaches s.fetchItem window prefer (.start index.items) t'
    have hconst : (index.items.mapIdx fun _ p => ((s.fetchItem p).run t').1) =
        index.items.map fun p => ((s.fetchItem p).run t').1 :=
      List.ext_getElem? fun i => by simp
    rw [load_of_index h hrun.result, hrun.eq_ofResults, hs.answer_eq hrun.answers, hconst,
      loadInOrder_of_index h, Loading.inOrder_run hs]

/-- Whatever read is preferred, loading comes to what the reads give in the order of the index, and
so does every way in which reads may be started, end and be delivered. The turns of a loading are
such a way, with no more reads under way in any of its states than the window allows. -/
theorem load_refines_inOrder (s : Source (StateM σ)) (window : Nat) (prefer : Loading → Nat)
    (t : σ) :
    (∀ e t', s.fetchIndex.run t = (.error e, t') →
      (load s window prefer).run t = (⟨[], .error e⟩, t')) ∧
    (∀ index t', s.fetchIndex.run t = (.ok index, t') → ∃ answer x d,
      Loading.RunsTo s.fetchItem window prefer (.start index.items) t' answer x d ∧
      (load s window prefer).run t = (d.toLoaded index.version, x.2) ∧
      (∀ y, ReflTransGen (Loading.Turns s.fetchItem window prefer) (.start index.items, t') y →
        y.1.inFlight ≤ max 1 window) ∧
      (∀ items, index.items.mapIdx answer = items.map .ok →
        ((load s window prefer).run t).1 = ⟨items, .ok ⟨index.version, items⟩⟩) ∧
      ∀ items e rest, index.items.mapIdx answer = items.map .ok ++ .error e :: rest →
        ((load s window prefer).run t).1 = ⟨items, .error e⟩) ∧
    (Loading.IsSteady s.fetchItem →
      ((load s window prefer).run t).1 = ((loadInOrder s).run t).1) ∧
    ∀ (answer : Nat → String → Except Failure Item) (paths : List String),
      (WellFounded fun l' l => Loading.Step window answer l l') ∧
      ∀ l, ReflTransGen (Loading.Step window answer) (.start paths) l →
        l.inFlight ≤ max 1 window ∧
        l.items <+: (Delivery.ofResults (paths.mapIdx answer)).items ∧
        (∀ d, l.outcome? = some d → d = .ofResults (paths.mapIdx answer)) ∧
        (l.outcome? = none → ∃ l', Loading.Step window answer l l') := by
  refine ⟨fun e t' h => load_of_error h, ?_, load_eq_loadInOrder, ?_⟩
  · intro index t' h
    obtain ⟨answer, x, d, hrun⟩ :=
      Loading.run_reaches s.fetchItem window prefer (.start index.items) t'
    have hload : (load s window prefer).run t = (d.toLoaded index.version, x.2) :=
      load_of_index h hrun.result
    refine ⟨answer, x, d, hrun, hload, fun y hy => hrun.inFlight_le hy, ?_, ?_⟩
    · intro items hitems
      have hofResults := Delivery.ofResults_append items []
      rw [List.append_nil] at hofResults
      rw [hload, hrun.eq_ofResults, hitems, hofResults]
      simp [Delivery.toLoaded, Delivery.ofResults]
    · intro items e rest hresults
      rw [hload, hrun.eq_ofResults, hresults, Delivery.ofResults_append]
      simp [Delivery.toLoaded, Delivery.ofResults]
  · intro answer paths
    refine ⟨Loading.wellFounded_step, ?_⟩
    intro l hl
    have htracks := Loading.Tracks.reaches hl
    exact ⟨htracks.inFlight_le, htracks.items_prefix, fun d hd => htracks.outcome?_eq hd,
      Loading.exists_step⟩

/-- Documents by path, with a log of the reads. -/
def loggingSource (documents : List (String × Content)) : Source (StateM (List String)) where
  location path := path
  read path := fun log => (match documents.lookup path with
    | some c => .ok c
    | none => .error (.fetchFailed path "not found"), log ++ [path])

lemma fetch_loggingSource {α : Type} (documents : List (String × Content))
    (decode : List Glyph → Except Json.Cause α) (p : String) (log : List String) :
    ((loggingSource documents).fetch decode p).run log = (match documents.lookup p with
      | some c => (decode c).mapError (.invalidSchema p)
      | none => .error (.fetchFailed p "not found"), log ++ [p]) := by
  rw [Source.fetch, Loading.run_bind]
  simp only [loggingSource, StateT.run]
  cases documents.lookup p <;> rfl

lemma isSteady_loggingSource (documents : List (String × Content)) :
    Loading.IsSteady (loggingSource documents).fetchItem := by
  intro p q u
  simp only [Source.fetchItem, fetch_loggingSource]

/-- A struct without fields. -/
def emptyStruct (name : String) : Item where
  name := name
  doc := ""
  category := ""
  hidden := false
  package := ""
  definition := .struct ⟨[]⟩

/-- An inventory that lists one document twice and one that is missing. -/
def partialDocuments : List (String × Content) :=
  [("index.json", Glyph.ofString (Index.toJson ⟨"1.0.0", ["a", "b", "a", "c"]⟩).compact),
   ("a", Glyph.ofString (emptyStruct "Token").toJson.compact),
   ("b", Glyph.ofString (emptyStruct "Session").toJson.compact)]

lemma fetchItem_partialDocuments {p : String} {name : String} (log : List String)
    (h : partialDocuments.lookup p =
      some (Glyph.ofString (emptyStruct name).toJson.compact)) :
    (((loggingSource partialDocuments).fetchItem p).run log).1 = .ok (emptyStruct name) := by
  have hdecode : Item.ofGlyphs? (Glyph.ofString (emptyStruct name).toJson.compact) =
      .ok (emptyStruct name) := Item.ofGlyphs?_compact (i := emptyStruct name) trivial
  rw [Source.fetchItem, fetch_loggingSource, h]
  simp only [hdecode]
  rfl

lemma fetchIndex_partialDocuments :
    (loggingSource partialDocuments).fetchIndex.run [] =
      (.ok ⟨"1.0.0", ["a", "b", "a", "c"]⟩, ["index.json"]) := by
  have hdecode := Json.Decode.text_compact
    (Index.isPlain_toJson ⟨"1.0.0", ["a", "b", "a", "c"]⟩) (Decode.index_toJson _)
  have hlookup : partialDocuments.lookup "index.json" =
    some (Glyph.ofString (Index.toJson ⟨"1.0.0", ["a", "b", "a", "c"]⟩).compact) := rfl
  rw [Source.fetchIndex, fetch_loggingSource, indexPath, hlookup]
  simp only [Index.ofGlyphs?, hdecode]
  rfl

theorem load_refines_inOrder_partialDocuments :
    Loading.IsSteady (loggingSource partialDocuments).fetchItem ∧
    ((load (loggingSource partialDocuments) 2 fun _ => 1).run []).1 =
      ⟨[emptyStruct "Token", emptyStruct "Session", emptyStruct "Token"],
        .error (.fetchFailed "c" "not found")⟩ := by
  have hsteady := isSteady_loggingSource partialDocuments
  obtain ⟨-, hload, -⟩ := load_refines_inOrder (loggingSource partialDocuments) 2 (fun _ => 1) []
  obtain ⟨answer, x, d, hrun, -, -, -, hfailed⟩ := hload _ _ fetchIndex_partialDocuments
  refine ⟨hsteady, hfailed _ _ [] ?_⟩
  have ha := fetchItem_partialDocuments (p := "a") ["index.json"] rfl
  have hb := fetchItem_partialDocuments (p := "b") ["index.json"] rfl
  have hc : (((loggingSource partialDocuments).fetchItem "c").run ["index.json"]).1 =
      .error (.fetchFailed "c" "not found") := rfl
  rw [hsteady.answer_eq hrun.answers]
  simp [ha, hb, hc]

end Load

end SchemaClient.Load
