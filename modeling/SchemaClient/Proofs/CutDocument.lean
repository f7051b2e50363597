import SchemaClient.Load.Source
import SchemaClient.Proofs.CutBytes
import SchemaClient.Proofs.CutOutline
import SchemaClient.Proofs.SchemaRoundTrip

/-!
# Documents that are cut off

A document that is cut off never decodes: a decoder that accepts the whole document meets the cut
before it can miss a field or find a wrong shape. The cause is the end of the text, unless the text
ends in a number that misses a digit or is out of range so far.
-/

namespace SchemaClient.Json.Outline

variable {P : Cause → Prop} {u v : Outline}

lemma skipProblemInItems?_append (vs ws : List Outline) :
    skipProblemInItems? (vs ++ ws) = (skipProblemInItems? vs).or (skipProblemInItems? ws) := by
  induction vs with
  | nil => rfl
  | cons v vs ih => simp only [List.cons_append, skipProblemInItems?, ih, Option.or_assoc]

lemma skipProblemInEntries?_append (es fs : List Entry) :
    skipProblemInEntries? (es ++ fs) =
      (skipProblemInEntries? es).or (skipProblemInEntries? fs) := by
  induction es with
  | nil => rfl
  | cons e es ih => simp only [List.cons_append, skipProblemInEntries?, ih, Option.or_assoc]

/-- Skipping over a value comes to the cut in it. -/
lemma Cut.skipProblem? (h : Cut P u v) (hended : P .ended) (hv : v.skipProblem? = none) :
    ∃ c, P c ∧ u.skipProblem? = some c := by
  induction h with
  | broken hs => exact ⟨_, hs, rfl⟩
  | arrayEnd hs ht vs more stop =>
    simp only [Outline.skipProblem?, skipProblemInItems?_append, Option.or_eq_none_iff] at hv
    obtain ⟨⟨hvs, -⟩, -⟩ := hv
    exact ⟨_, hs, by simp [Outline.skipProblem?, hvs]⟩
  | arrayNumber hm n vs more stop =>
    simp only [Outline.skipProblem?, skipProblemInItems?_append, Option.or_eq_none_iff] at hv
    obtain ⟨⟨hvs, -⟩, -⟩ := hv
    exact ⟨_, hended, by
      simp [Outline.skipProblem?, skipProblemInItems?_append, skipProblemInItems?, hvs,
        Break.ended]⟩
  | arrayItem h b vs more stop ih =>
    simp only [Outline.skipProblem?, skipProblemInItems?_append, skipProblemInItems?,
      Option.or_eq_none_iff] at hv
    obtain ⟨⟨hvs, hv, -⟩, -⟩ := hv
    obtain ⟨c, hc, hu⟩ := ih hv
    exact ⟨c, hc, by
      simp [Outline.skipProblem?, skipProblemInItems?_append, skipProblemInItems?, hvs, hu]⟩
  | objectEnd hs ht es stop =>
    simp only [Outline.skipProblem?, skipProblemInEntries?_append, Option.or_eq_none_iff] at hv
    obtain ⟨⟨hes, -⟩, -⟩ := hv
    exact ⟨_, hs, by simp [Outline.skipProblem?, hes]⟩
  | objectNumber hm n k es more stop =>
    simp only [Outline.skipProblem?, skipProblemInEntries?_append, Option.or_eq_none_iff] at hv
    obtain ⟨⟨hes, -⟩, -⟩ := hv
    exact ⟨_, hended, by
      simp [Outline.skipProblem?, skipProblemInEntries?_append, skipProblemInEntries?, hes,
        Break.ended]⟩
  | objectValue h k b es more stop ih =>
    simp only [Outline.skipProblem?, skipProblemInEntries?_append, skipProblemInEntries?,
      Option.or_eq_none_iff] at hv
    obtain ⟨⟨hes, hv, -⟩, -⟩ := hv
    obtain ⟨c, hc, hu⟩ := ih hv
    exact ⟨c, hc, by
      simp [Outline.skipProblem?, skipProblemInEntries?_append, skipProblemInEntries?, hes, hu]⟩

lemma problem?_array {depth : Nat} (h : depth < maxDepth) (vs : List Outline)
    (stop : Option Break) : (Outline.array vs stop).problem? depth =
      (problemInItems? (depth + 1) vs).or (stop.map (·.taken)) := by
  rw [Outline.problem?, if_neg (Nat.not_le_of_lt h)]

lemma problem?_object {depth : Nat} (h : depth < maxDepth) (es : List Entry)
    (stop : Option Break) : (Outline.object es stop).problem? depth =
      (problemInEntries? (depth + 1) es).or (stop.map (·.taken)) := by
  rw [Outline.problem?, if_neg (Nat.not_le_of_lt h)]

/-- A number that is taken is out of range, or there is nothing wrong with it. -/
lemma problem?_number {m : Option Number} (hm : m = none → P .malformed) (depth : Nat) :
    (Outline.number m).problem? depth = none ∨
      ∃ c, P c ∧ (Outline.number m).problem? depth = some c := by
  cases m with
  | none => exact .inr ⟨_, hm rfl, rfl⟩
  | some n => exact .inl rfl

/-- Taking a value comes to the cut in it. -/
lemma Cut.problem? (h : Cut P u v) (hended : P .ended) {depth : Nat}
    (hv : v.problem? depth = none) : ∃ c, P c ∧ u.problem? depth = some c := by
  induction h generalizing depth with
  | @broken b v hs ht =>
    refine ⟨b.taken, ht ?_, rfl⟩
    rintro rfl
    cases hv
  | @arrayEnd b hs ht vs more stop =>
    obtain ⟨hroom, hitems, -⟩ := problem?_array_eq_none_iff.mp hv
    rw [problemInItems?_append, Option.or_eq_none_iff] at hitems
    exact ⟨_, ht, by simp [problem?_array hroom, hitems.1]⟩
  | @arrayNumber m hm n vs more stop =>
    obtain ⟨hroom, hitems, -⟩ := problem?_array_eq_none_iff.mp hv
    rw [problemInItems?_append, Option.or_eq_none_iff] at hitems
    rw [problem?_array hroom, problemInItems?_append, hitems.1, Option.none_or]
    rcases problem?_number hm (depth + 1) with hnone | ⟨c, hc, hsome⟩
    · exact ⟨_, hended, by simp [problemInItems?, hnone, Break.ended]⟩
    · exact ⟨c, hc, by simp [problemInItems?, hsome]⟩
  | arrayItem h b vs more stop ih =>
    obtain ⟨hroom, hitems, -⟩ := problem?_array_eq_none_iff.mp hv
    simp only [problemInItems?_append, problemInItems?, Option.or_eq_none_iff] at hitems
    obtain ⟨hvs, hv, -⟩ := hitems
    obtain ⟨c, hc, hu⟩ := ih hv
    exact ⟨c, hc, by
      simp [problem?_array hroom, problemInItems?_append, problemInItems?, hvs, hu]⟩
  | objectEnd hs ht es stop =>
    obtain ⟨hroom, hentries, -⟩ := problem?_object_eq_none_iff.mp hv
    rw [problemInEntries?_append, Option.or_eq_none_iff] at hentries
    obtain ⟨hes, hmore⟩ := hentries
    rcases ht with ht | ⟨v, rest, rfl⟩
    · exact ⟨_, ht, by simp [problem?_object hroom, hes]⟩
    · cases hmore
  | @objectNumber m hm n k es more stop =>
    obtain ⟨hroom, hentries, -⟩ := problem?_object_eq_none_iff.mp hv
    rw [problemInEntries?_append, Option.or_eq_none_iff] at hentries
    obtain ⟨hes, hmore⟩ := hentries
    rw [problem?_object hroom, problemInEntries?_append, hes, Option.none_or]
    cases k with
    | none => cases hmore
    | some k =>
      rcases problem?_number hm (depth + 1) with hnone | ⟨c, hc, hsome⟩
      · exact ⟨_, hended, by simp [problemInEntries?, hnone, Break.ended]⟩
      · exact ⟨c, hc, by simp [problemInEntries?, hsome]⟩
  | objectValue h k b es more stop ih =>
    obtain ⟨hroom, hentries, -⟩ := problem?_object_eq_none_iff.mp hv
    rw [problemInEntries?_append, Option.or_eq_none_iff] at hentries
    obtain ⟨hes, hmore⟩ := hentries
    rw [problem?_object hroom, problemInEntries?_append, hes, Option.none_or]
    cases k with
    | none => cases hmore
    | some k =>
      simp only [problemInEntries?, Option.or_eq_none_iff] at hmore
      obtain ⟨c, hc, hu⟩ := ih hmore.1
      exact ⟨c, hc, by simp [problemInEntries?, hu]⟩

end SchemaClient.Json.Outline

namespace SchemaClient.Json.Decode
open Outline

/-- A decoder tells every cut of what it accepts, and accepts no number. -/
structure NoticesCuts {α : Type} (P : Cause → Prop) (decode : Decoder α) : Prop where
  cut : ∀ u v a, Cut P u v → decode v = .ok a → ∃ c, P c ∧ decode u = .error c
  number : ∀ n a, decode (.number n) ≠ .ok a

variable {P : Cause → Prop} {α : Type} {decode : Decoder α}

lemma noticesCuts_string : NoticesCuts P string := by
  refine ⟨?_, fun _ _ => nofun⟩
  intro u v s hcut hv
  cases hcut with
  | @broken b v _ ht =>
    refine ⟨b.taken, ht ?_, rfl⟩
    rintro rfl
    cases hv
  | _ => cases hv

lemma noticesCuts_bool : NoticesCuts P bool := by
  refine ⟨?_, fun _ _ => nofun⟩
  intro u v s hcut hv
  cases hcut with
  | @broken b v _ ht =>
    refine ⟨b.taken, ht ?_, rfl⟩
    rintro rfl
    cases hv
  | _ => cases hv

lemma each_append_eq_ok {vs ws : List Outline} {as : List α}
    (h : each decode (vs ++ ws) = .ok as) :
    ∃ bs cs, each decode vs = .ok bs ∧ each decode ws = .ok cs := by
  induction vs generalizing as with
  | nil => exact ⟨[], as, rfl, h⟩
  | cons v vs ih =>
    obtain ⟨b, hb, h⟩ := bind_eq_ok_iff.mp h
    obtain ⟨bs, hbs, -⟩ := bind_eq_ok_iff.mp h
    obtain ⟨bs', cs, hbs', hcs⟩ := ih hbs
    exact ⟨b :: bs', cs, by rw [each, hb, hbs']; rfl, hcs⟩

lemma each_append_error {vs ws : List Outline} {as : List α} {c : Cause}
    (hvs : each decode vs = .ok as) (hws : each decode ws = .error c) :
    each decode (vs ++ ws) = .error c := by
  induction vs generalizing as with
  | nil => exact hws
  | cons v vs ih =>
    obtain ⟨b, hb, h⟩ := bind_eq_ok_iff.mp hvs
    obtain ⟨bs, hbs, -⟩ := bind_eq_ok_iff.mp h
    rw [List.cons_append, each, hb, ih hbs]
    rfl

lemma noticesCuts_list (h : NoticesCuts P decode) : NoticesCuts P (list decode) := by
  refine ⟨?_, fun _ _ => nofun⟩
  intro u v as hcut hv
  cases v with
  | array ws stop =>
    obtain ⟨bs, hbs, -⟩ := bind_eq_ok_iff.mp hv
    cases hcut with
    | @broken b _ _ ht => exact ⟨b.taken, ht nofun, rfl⟩
    | @arrayEnd b _ ht vs more =>
      obtain ⟨bs, -, hvs, -⟩ := each_append_eq_ok hbs
      exact ⟨b.taken, ht, by rw [list, hvs]; rfl⟩
    | arrayNumber hm n vs more =>
      obtain ⟨-, cs, -, hcs⟩ := each_append_eq_ok hbs
      obtain ⟨a, ha, -⟩ := bind_eq_ok_iff.mp hcs
      exact absurd ha (h.number n a)
    | @arrayItem u v hcut b vs more =>
      obtain ⟨bs, cs, hvs, hcs⟩ := each_append_eq_ok hbs
      obtain ⟨a, ha, -⟩ := bind_eq_ok_iff.mp hcs
      obtain ⟨c, hc, hu⟩ := h.cut u v a hcut ha
      have hlast : each decode [u] = .error c := by rw [each, hu]; rfl
      exact ⟨c, hc, by rw [list, each_append_error hvs hlast]; rfl⟩
  | _ => cases hv

section Records

variable {ρ : Type} {slots : List (Slot ρ)}

/-- A slot tells every cut of what it stores, and stores no number. -/
structure Slot.NoticesCuts (P : Cause → Prop) (slot : Slot ρ) : Prop where
  cut : ∀ u v r r', Cut P u v → slot.store v r = .ok r' → ∃ c, P c ∧ slot.store u r = .error c
  number : ∀ n r r', slot.store (.number n) r ≠ .ok r'

lemma noticesCuts_of_map {key : String} {isRequired : Bool} {set : α → ρ → ρ}
    (h : NoticesCuts P decode) :
    Slot.NoticesCuts P ⟨key, isRequired, fun v r => (decode v).map (set · r)⟩ := by
  constructor
  · intro u v r r' hcut hv
    obtain ⟨a, ha, -⟩ := map_eq_ok_iff.mp hv
    obtain ⟨c, hc, hu⟩ := h.cut u v a hcut ha
    exact ⟨c, hc, by dsimp only; rw [hu]; rfl⟩
  · intro n r r' hv
    obtain ⟨a, ha, -⟩ := map_eq_ok_iff.mp hv
    exact h.number n a ha

lemma noticesCuts_required {key : String} {set : α → ρ → ρ} (h : NoticesCuts P decode) :
    (required key decode set).NoticesCuts P :=
  noticesCuts_of_map h

lemma noticesCuts_defaulted {key : String} {set : α → ρ → ρ} (h : NoticesCuts P decode) :
    (defaulted key decode set).NoticesCuts P :=
  noticesCuts_of_map h

lemma storeEntries_append (seen : List String) (r : ρ) (es fs : List Entry) :
    storeEntries slots seen r (es ++ fs) =
      storeEntries slots seen r es >>= fun x => storeEntries slots x.1 x.2 fs := by
  induction es generalizing seen r with
  | nil => rfl
  | cons e es ih =>
    obtain ⟨_ | k, v⟩ := e
    · rfl
    rw [List.cons_append, storeEntries, storeEntries]
    split
    · cases v.skipProblem? with
      | none => exact ih seen r
      | some c => rfl
    · next slot _ =>
      split
      · rfl
      · cases slot.store v r with
        | error c => rfl
        | ok r => exact ih _ r

/-- The last entry before a cut: it is complete but for a number, or it tells the cut. -/
lemma storeEntries_number (hslots : ∀ slot ∈ slots, slot.NoticesCuts P) {seen : List String}
    {r : ρ} {k : Option String} {n : Option Number} {more : List Entry} {x : List String × ρ}
    (h : storeEntries slots seen r ((k, .number n) :: more) = .ok x) (m : Option Number) :
    storeEntries slots seen r [(k, .number m)] = .ok (seen, r) := by
  cases k with
  | none => cases h
  | some k =>
    rw [storeEntries] at h ⊢
    split at h
    · rfl
    · next slot hfind =>
      split at h
      · cases h
      · obtain ⟨r', hr', -⟩ := bind_eq_ok_iff.mp h
        exact absurd hr' ((hslots slot (List.mem_of_find?_eq_some hfind)).number n r r')

lemma storeEntries_cut (hslots : ∀ slot ∈ slots, slot.NoticesCuts P) (hended : P .ended)
    {u v : Outline} (hcut : Cut P u v) {seen : List String} {r : ρ} {k : Option String}
    {more : List Entry} {x : List String × ρ}
    (h : storeEntries slots seen r ((k, v) :: more) = .ok x) :
    ∃ c, P c ∧ storeEntries slots seen r [(k, u)] = .error c := by
  cases k with
  | none => cases h
  | some k =>
    rw [storeEntries] at h ⊢
    split at h
    · obtain ⟨_, hv, -⟩ := bind_eq_ok_iff.mp h
      obtain ⟨c, hc, hu⟩ := hcut.skipProblem? hended (check_eq_ok_iff.mp hv)
      exact ⟨c, hc, by rw [hu]; rfl⟩
    · next slot hfind =>
      split at h
      · cases h
      · next hseen =>
        obtain ⟨r', hr', -⟩ := bind_eq_ok_iff.mp h
        obtain ⟨c, hc, hu⟩ :=
          (hslots slot (List.mem_of_find?_eq_some hfind)).cut u v r r' hcut hr'
        exact ⟨c, hc, by rw [if_neg hseen, hu]; rfl⟩

/-- An object that is cut off tells the cut, if the whole object is a record. -/
lemma record_object_cut (surplus : Cause) (hslots : ∀ slot ∈ slots, slot.NoticesCuts P)
    (hended : P .ended) {initial r : ρ} {es : List Entry} {stop : Option Break} {u : Outline}
    (hcut : Cut P u (.object es stop))
    (h : record surplus slots initial (.object es stop) = .ok r) :
    ∃ c, P c ∧ record surplus slots initial u = .error c := by
  obtain ⟨x, hx, -⟩ := bind_eq_ok_iff.mp h
  cases hcut with
  | @broken b _ _ ht => exact ⟨b.taken, ht nofun, rfl⟩
  | @objectEnd b more _ ht es =>
    rw [storeEntries_append] at hx
    obtain ⟨y, hy, hmore⟩ := bind_eq_ok_iff.mp hx
    rcases ht with ht | ⟨v, rest, rfl⟩
    · exact ⟨b.taken, ht, by rw [record, hy]; rfl⟩
    · cases hmore
  | @objectNumber m hm n k es more =>
    rw [storeEntries_append] at hx
    obtain ⟨y, hy, hmore⟩ := bind_eq_ok_iff.mp hx
    have hlast := storeEntries_number hslots hmore m
    refine ⟨.ended, hended, ?_⟩
    rw [record, storeEntries_append, hy]
    simp only [bind, Except.bind, hlast]
    rfl
  | @objectValue u v hcut k b es more =>
    rw [storeEntries_append] at hx
    obtain ⟨y, hy, hmore⟩ := bind_eq_ok_iff.mp hx
    obtain ⟨c, hc, hlast⟩ := storeEntries_cut hslots hended hcut hmore
    refine ⟨c, hc, ?_⟩
    rw [record, storeEntries_append, hy]
    simp only [bind, Except.bind, hlast]

lemma storeItems_stop (surplus : Cause) (b : Break) (slots : List (Slot ρ)) (r : ρ) :
    storeItems surplus (some b) slots [] r = .error b.taken := by
  cases slots <;> rfl

/-- Items that have been stored leave slots for the items after them, whatever these are. -/
lemma storeItems_append {surplus : Cause} {stop : Option Break} {slots : List (Slot ρ)} {r r' : ρ}
    {vs ws : List Outline} (h : storeItems surplus stop slots (vs ++ ws) r = .ok r') :
    ∃ slots' r₁, slots' ⊆ slots ∧ storeItems surplus stop slots' ws r₁ = .ok r' ∧
      ∀ stop' us, storeItems surplus stop' slots (vs ++ us) r =
        storeItems surplus stop' slots' us r₁ := by
  induction vs generalizing slots r with
  | nil => exact ⟨slots, r, List.Subset.refl _, h, fun _ _ => rfl⟩
  | cons v vs ih =>
    cases slots with
    | nil => cases h
    | cons slot slots =>
      obtain ⟨r₁, hr₁, h⟩ := bind_eq_ok_iff.mp h
      obtain ⟨slots', r₂, hsub, hws, hrest⟩ := ih h
      refine ⟨slots', r₂, List.subset_cons_of_subset slot hsub, hws, fun stop' us => ?_⟩
      rw [List.cons_append, storeItems, hr₁]
      exact hrest stop' us

/-- An array that is cut off tells the cut, if the whole array is a record. -/
lemma record_array_cut (surplus : Cause) (hslots : ∀ slot ∈ slots, slot.NoticesCuts P)
    {initial r : ρ} {ws : List Outline} {stop : Option Break} {u : Outline}
    (hcut : Cut P u (.array ws stop)) (h : record surplus slots initial (.array ws stop) = .ok r) :
    ∃ c, P c ∧ record surplus slots initial u = .error c := by
  cases hcut with
  | @broken b _ _ ht => exact ⟨b.taken, ht nofun, rfl⟩
  | @arrayEnd b _ ht vs more =>
    obtain ⟨slots', r₁, -, -, hvs⟩ := storeItems_append h
    have hend := hvs (some b) []
    rw [List.append_nil, storeItems_stop] at hend
    exact ⟨b.taken, ht, hend⟩
  | arrayNumber hm n vs more =>
    obtain ⟨slots', r₁, hsub, hnumber, -⟩ := storeItems_append h
    cases slots' with
    | nil => cases hnumber
    | cons slot slots' =>
      obtain ⟨r₂, hr₂, -⟩ := bind_eq_ok_iff.mp hnumber
      exact absurd hr₂ ((hslots slot (hsub List.mem_cons_self)).number n r₁ r₂)
  | @arrayItem u v hcut b vs more =>
    obtain ⟨slots', r₁, hsub, hv, hvs⟩ := storeItems_append h
    cases slots' with
    | nil => cases hv
    | cons slot slots' =>
      obtain ⟨r₂, hr₂, -⟩ := bind_eq_ok_iff.mp hv
      obtain ⟨c, hc, hu⟩ := (hslots slot (hsub List.mem_cons_self)).cut u v r₁ r₂ hcut hr₂
      refine ⟨c, hc, ?_⟩
      rw [record, hvs, storeItems, hu]
      rfl

lemma noticesCuts_record (surplus : Cause) (hslots : ∀ slot ∈ slots, slot.NoticesCuts P)
    (hended : P .ended) (initial : ρ) : NoticesCuts P (record surplus slots initial) := by
  refine ⟨?_, fun _ _ => nofun⟩
  intro u v r hcut hv
  cases v with
  | object es stop => exact record_object_cut surplus hslots hended hcut hv
  | array vs stop => exact record_array_cut surplus hslots hcut hv
  | _ => cases hv

/-- A record is read to its end. -/
lemma not_isOpen_of_record {surplus : Cause} {initial r : ρ} {v : Outline}
    (h : record surplus slots initial v = .ok r) : ¬IsOpen v := by
  intro hopen
  cases v with
  | object es stop =>
    obtain ⟨x, -, h⟩ := bind_eq_ok_iff.mp h
    obtain ⟨_, hstop, -⟩ := bind_eq_ok_iff.mp h
    obtain rfl := check_stop_eq_ok_iff.mp hstop
    exact hopen
  | array vs stop =>
    obtain rfl := stop_of_storeItems h
    exact hopen
  | broken b => cases h
  | _ => exact hopen

end Records

section Tags

variable {τ : Type} {key : String} {tag : Decoder τ} {depth : Nat} {payload : τ → Decoder α}

/-- The last entry before a cut is complete but for a number, or it tells the cut. -/
lemma splitTag_number (htag : NoticesCuts P tag) {found : Option τ} {k : Option String}
    {n : Option Number} {more : List Entry} {x : Option τ × List Entry}
    (h : splitTag key tag depth found ((k, .number n) :: more) = .ok x) {m : Option Number}
    (hm : m = none → P .malformed) :
    (∃ y, splitTag key tag depth found [(k, .number m)] = .ok y) ∨
      ∃ c, P c ∧ splitTag key tag depth found [(k, .number m)] = .error c := by
  cases k with
  | none => cases h
  | some k =>
    rw [splitTag] at h ⊢
    split at h
    · split at h
      · cases h
      · obtain ⟨t, ht, -⟩ := bind_eq_ok_iff.mp h
        exact absurd ht (htag.number n t)
    · next hk =>
      rw [if_neg hk]
      rcases problem?_number hm depth with hnone | ⟨c, hc, hsome⟩
      · exact .inl ⟨_, by rw [hnone]; rfl⟩
      · exact .inr ⟨c, hc, by rw [hsome]; rfl⟩

lemma splitTag_cut (htag : NoticesCuts P tag) (hended : P .ended) {u v : Outline}
    (hcut : Cut P u v) {found : Option τ} {k : Option String} {more : List Entry}
    {x : Option τ × List Entry} (h : splitTag key tag depth found ((k, v) :: more) = .ok x) :
    ∃ c, P c ∧ splitTag key tag depth found [(k, u)] = .error c := by
  cases k with
  | none => cases h
  | some k =>
    rw [splitTag] at h ⊢
    split at h
    · next hk =>
      split at h
      · cases h
      · next hfound =>
        obtain ⟨t, ht, -⟩ := bind_eq_ok_iff.mp h
        obtain ⟨c, hc, hu⟩ := htag.cut u v t hcut ht
        exact ⟨c, hc, by rw [if_pos hk, if_neg hfound, hu]; rfl⟩
    · next hk =>
      obtain ⟨_, hv, -⟩ := bind_eq_ok_iff.mp h
      obtain ⟨c, hc, hu⟩ := hcut.problem? hended (check_eq_ok_iff.mp hv)
      exact ⟨c, hc, by rw [if_neg hk, hu]; rfl⟩

lemma tagged_object_cut (htag : NoticesCuts P tag) (hended : P .ended) {a : α} {es : List Entry}
    {stop : Option Break} {u : Outline} (hcut : Cut P u (.object es stop))
    (h : tagged key tag depth payload (.object es stop) = .ok a) :
    ∃ c, P c ∧ tagged key tag depth payload u = .error c := by
  obtain ⟨x, hx, -⟩ := bind_eq_ok_iff.mp h
  cases hcut with
  | @broken b _ _ ht => exact ⟨b.taken, ht nofun, rfl⟩
  | @objectEnd b more _ ht es =>
    rw [splitTag_append] at hx
    obtain ⟨y, hy, hmore⟩ := bind_eq_ok_iff.mp hx
    rcases ht with ht | ⟨v, rest, rfl⟩
    · exact ⟨b.taken, ht, by rw [tagged, hy]; rfl⟩
    · cases hmore
  | @objectNumber m hm n k es more =>
    rw [splitTag_append] at hx
    obtain ⟨y, hy, hmore⟩ := bind_eq_ok_iff.mp hx
    obtain ⟨z, hz, -⟩ := map_eq_ok_iff.mp hmore
    rcases splitTag_number htag hz hm with ⟨w, hlast⟩ | ⟨c, hc, hlast⟩
    · exact ⟨.ended, hended, by rw [tagged, splitTag_append, hy, Except.bind, hlast]; rfl⟩
    · exact ⟨c, hc, by rw [tagged, splitTag_append, hy, Except.bind, hlast]; rfl⟩
  | @objectValue u v hcut k b es more =>
    rw [splitTag_append] at hx
    obtain ⟨y, hy, hmore⟩ := bind_eq_ok_iff.mp hx
    obtain ⟨z, hz, -⟩ := map_eq_ok_iff.mp hmore
    obtain ⟨c, hc, hlast⟩ := splitTag_cut htag hended hcut hz
    exact ⟨c, hc, by rw [tagged, splitTag_append, hy, Except.bind, hlast]; rfl⟩

lemma tagged_cons_eq_ok {v : Outline} {vs : List Outline} {stop : Option Break} {a : α}
    (h : tagged key tag depth payload (.array (v :: vs) stop) = .ok a) :
    (∃ t, tag v = .ok t) ∧ problemInItems? (depth + 1) vs = none := by
  obtain ⟨t, hv, h⟩ := bind_eq_ok_iff.mp h
  obtain ⟨_, hvs, -⟩ := bind_eq_ok_iff.mp h
  exact ⟨⟨t, hv⟩, check_eq_ok_iff.mp hvs⟩

lemma tagged_cons_error {v : Outline} {vs : List Outline} {stop : Option Break} {t : τ} {c : Cause}
    (hv : tag v = .ok t)
    (hvs : (problemInItems? (depth + 1) vs).or (stop.map (·.taken)) = some c) :
    tagged key tag depth payload (.array (v :: vs) stop) = .error c := by
  rw [tagged, hv]
  simp only [bind, Except.bind]
  cases hproblem : problemInItems? (depth + 1) vs with
  | some c' =>
    rw [hproblem] at hvs
    rw [← Option.some.inj hvs]
    rfl
  | none =>
    rw [hproblem, Option.none_or] at hvs
    rw [hvs]
    rfl

lemma tagged_array_cut (htag : NoticesCuts P tag) (hended : P .ended) {a : α} {ws : List Outline}
    {stop : Option Break} {u : Outline} (hcut : Cut P u (.array ws stop))
    (h : tagged key tag depth payload (.array ws stop) = .ok a) :
    ∃ c, P c ∧ tagged key tag depth payload u = .error c := by
  cases hcut with
  | @broken b _ _ ht => exact ⟨b.taken, ht nofun, rfl⟩
  | @arrayEnd b _ ht vs more =>
    cases vs with
    | nil => exact ⟨b.taken, ht, rfl⟩
    | cons v vs =>
      rw [List.cons_append] at h
      obtain ⟨⟨t, hv⟩, hvs⟩ := tagged_cons_eq_ok h
      rw [problemInItems?_append, Option.or_eq_none_iff] at hvs
      exact ⟨b.taken, ht, tagged_cons_error hv (by simp [hvs.1])⟩
  | @arrayNumber m hm n vs more =>
    cases vs with
    | nil =>
      obtain ⟨⟨t, hv⟩, -⟩ := tagged_cons_eq_ok h
      exact absurd hv (htag.number n t)
    | cons v vs =>
      rw [List.cons_append] at h
      obtain ⟨⟨t, hv⟩, hvs⟩ := tagged_cons_eq_ok h
      rw [problemInItems?_append, Option.or_eq_none_iff] at hvs
      rw [List.cons_append]
      rcases problem?_number hm (depth + 1) with hnone | ⟨c, hc, hsome⟩
      · exact ⟨.ended, hended, tagged_cons_error hv
          (by simp [problemInItems?_append, problemInItems?, hvs.1, hnone, Break.ended])⟩
      · exact ⟨c, hc, tagged_cons_error hv
          (by simp [problemInItems?_append, problemInItems?, hvs.1, hsome])⟩
  | @arrayItem u v hcut b vs more =>
    cases vs with
    | nil =>
      obtain ⟨⟨t, hv⟩, -⟩ := tagged_cons_eq_ok h
      obtain ⟨c, hc, hu⟩ := htag.cut u v t hcut hv
      exact ⟨c, hc, by rw [List.nil_append, tagged, hu]; rfl⟩
    | cons w vs =>
      rw [List.cons_append] at h
      obtain ⟨⟨t, hw⟩, hvs⟩ := tagged_cons_eq_ok h
      simp only [problemInItems?_append, problemInItems?, Option.or_eq_none_iff] at hvs
      obtain ⟨hvs, hv, -⟩ := hvs
      obtain ⟨c, hc, hu⟩ := hcut.problem? hended hv
      rw [List.cons_append]
      exact ⟨c, hc, tagged_cons_error hw
        (by simp [problemInItems?_append, problemInItems?, hvs, hu])⟩

lemma noticesCuts_tagged (htag : NoticesCuts P tag) (hended : P .ended) :
    NoticesCuts P (tagged key tag depth payload) := by
  refine ⟨?_, fun _ _ => nofun⟩
  intro u v a hcut hv
  cases v with
  | object es stop => exact tagged_object_cut htag hended hcut hv
  | array vs stop => exact tagged_array_cut htag hended hcut hv
  | _ => cases hv

end Tags

end SchemaClient.Json.Decode

namespace SchemaClient.Schema.Decode
open SchemaClient.Json SchemaClient.Json.Decode

variable {P : Cause → Prop}

lemma noticesCuts_definition (hended : P .ended) (depth : Nat) :
    NoticesCuts P (definition depth) :=
  noticesCuts_tagged noticesCuts_string hended

lemma noticesCuts_item (hended : P .ended) (depth : Nat) : NoticesCuts P (item depth) := by
  refine noticesCuts_record .malformed ?_ hended _
  simp only [List.forall_mem_cons]
  exact ⟨noticesCuts_required noticesCuts_string, noticesCuts_defaulted noticesCuts_string,
    noticesCuts_defaulted noticesCuts_string, noticesCuts_defaulted noticesCuts_bool,
    noticesCuts_defaulted noticesCuts_string,
    noticesCuts_required (noticesCuts_definition hended _), nofun⟩

lemma noticesCuts_index (hended : P .ended) : NoticesCuts P index := by
  refine noticesCuts_record .malformed ?_ hended _
  simp only [List.forall_mem_cons]
  exact ⟨noticesCuts_required noticesCuts_string,
    noticesCuts_required (noticesCuts_list noticesCuts_string), nofun⟩

lemma noticesCuts_inventory (hended : P .ended) : NoticesCuts P inventory := by
  refine noticesCuts_record .malformed ?_ hended _
  simp only [List.forall_mem_cons]
  exact ⟨noticesCuts_required noticesCuts_string,
    noticesCuts_required (noticesCuts_list (noticesCuts_item hended 2)), nofun⟩

end SchemaClient.Schema.Decode

namespace SchemaClient.Json.Decode
open Outline Text

/-- A proper beginning of a text, counted in characters or in bytes. -/
inductive IsBeginning : List Glyph → List Glyph → Prop
  | chars {p gs : List Glyph} (h : p <+: gs) (hne : p ≠ gs) : IsBeginning p gs
  | bytes {p bs : List UInt8} (h : p <+: bs) (hne : p ≠ bs) :
      IsBeginning (Glyph.ofBytes p) (Glyph.ofBytes bs)

/-- A text ends in a number that misses a digit or is out of range. -/
def EndsInNumber (gs : List Glyph) : Prop :=
  (Token.ofGlyphs gs).getLast? = some (.broken false (Token.missingDigit [])) ∨
    (Token.ofGlyphs gs).getLast? = some (.number none)

/-- A text that is cut off is refused because it ends, unless the cut leaves a number that is none
or is out of range: then it may be refused as no JSON. -/
def RefusesBeginnings {α : Type} (decode : List Glyph → Except Cause α) : Prop :=
  ∀ gs a, decode gs = .ok a → Token.EndsSolid gs → ∀ p, IsBeginning p gs →
    ∃ c, decode p = .error c ∧ (c = .ended ∨ c = .malformed ∧ EndsInNumber p)

variable {α : Type} {decode : Decoder α}

lemma text_cutOff (hcuts : ∀ P : Cause → Prop, P .ended → NoticesCuts P decode)
    (hopen : ∀ v a, decode v = .ok a → ¬IsOpen v) {gs p : List Glyph} {a : α}
    (hgs : text decode gs = .ok a) (hp : Token.CutOff p gs) :
    ∃ c, text decode p = .error c ∧ Tells (Token.ofGlyphs p) c := by
  obtain ⟨b, hb, hend⟩ := bind_eq_ok_iff.mp hgs
  have hnotices := hcuts (Tells (Token.ofGlyphs p)) (.inl rfl)
  have hclosed := hopen _ b hb
  have hready : Ready .value [] := .value nofun
  have hrest : (read [] .value (Token.ofGlyphs gs)).2 = [] := by
    split at hend
    · exact List.isEmpty_iff.mp ‹_›
    · cases hend
  have hshort := Token.shortened_ofGlyphs hp (not_broken_mem hready hclosed hrest)
  have hnumber : ∀ n, (read [] .value (Token.ofGlyphs gs)).1 ≠ .number n := by
    intro n heq
    rw [heq] at hb
    exact hnotices.number n b hb
  have hcut := cut_read hready hshort (fun _ hc => hc) hclosed hrest hnumber
  obtain ⟨c, hc, herror⟩ := hnotices.cut _ _ b hcut hb
  refine ⟨c, ?_, hc⟩
  change (decode (ofTokens (Token.ofGlyphs p)).1 >>= _) = _
  rw [ofTokens, herror]
  rfl

lemma refusesBeginnings_text (hcuts : ∀ P : Cause → Prop, P .ended → NoticesCuts P decode)
    (hopen : ∀ v a, decode v = .ok a → ¬IsOpen v) : RefusesBeginnings (text decode) := by
  intro gs a hgs hsolid p hp
  have hcutOff : Token.CutOff p gs := by
    cases hp with
    | chars h hne => exact Token.cutOff_of_begins hsolid h hne
    | bytes h hne => exact Token.cutOff_ofBytes hsolid h hne
  exact text_cutOff hcuts hopen hgs hcutOff

end SchemaClient.Json.Decode

namespace SchemaClient.Schema
open SchemaClient.Json SchemaClient.Json.Decode SchemaClient.Text SchemaClient.Load

/-- No document that is cut off is accepted, and fetching one fails as its decoder does. -/
theorem refusesBeginnings_ofGlyphs? :
    RefusesBeginnings Item.ofGlyphs? ∧ RefusesBeginnings Index.ofGlyphs? ∧
    RefusesBeginnings Inventory.ofGlyphs? ∧
    ∀ {m : Type → Type} [Monad m] [LawfulMonad m] {α : Type}
      (decode : List Glyph → Except Cause α), RefusesBeginnings decode →
      ∀ (s : Source m) (path : String) (gs p : List Glyph) (a : α), decode gs = .ok a →
        Token.EndsSolid gs → IsBeginning p gs → s.read path = pure (.ok p) →
        ∃ c, s.fetch decode path = pure (.error (.invalidSchema (s.location path) c)) ∧
          (c = .ended ∨ c = .malformed ∧ EndsInNumber p) := by
  refine ⟨?_, ?_, ?_, ?_⟩
  · exact refusesBeginnings_text (fun P hended => Decode.noticesCuts_item hended 0)
      fun v a h => not_isOpen_of_record h
  · exact refusesBeginnings_text (fun P hended => Decode.noticesCuts_index hended)
      fun v a h => not_isOpen_of_record h
  · exact refusesBeginnings_text (fun P hended => Decode.noticesCuts_inventory hended)
      fun v a h => not_isOpen_of_record h
  · intro m _ _ α decode hdecode s path gs p a hgs hsolid hp hread
    obtain ⟨c, herror, hc⟩ := hdecode gs a hgs hsolid p hp
    refine ⟨c, ?_, hc⟩
    rw [Source.fetch, hread, pure_bind]
    dsimp only
    rw [herror]
    rfl

/-- The beginning of an index: its version. -/
def indexHead (rest : List Glyph) : List Glyph :=
  .char '\x7b' :: (Token.glyphs (quote "version").toList ++ .char ':' ::
    (Token.glyphs (quote "1.0.0").toList ++ .char ',' :: rest))

/-- The text of an index of one document. -/
def sampleIndex : List Glyph :=
  Glyph.ofString (Index.toJson ⟨"1.0.0", ["a.json"]⟩).compact

lemma ofGlyphs?_sampleIndex : Index.ofGlyphs? sampleIndex = .ok ⟨"1.0.0", ["a.json"]⟩ :=
  text_compact (Index.isPlain_toJson _) (Decode.index_toJson _)

lemma endsSolid_of_getLast? {gs : List Glyph} (h : gs.getLast? = some (.char '\x7d')) :
    Token.EndsSolid gs := by
  refine ⟨_, h, ?_⟩
  rintro c ⟨⟩
  rfl

/-- An index of which only the version is left. -/
theorem refusesBeginnings_sampleIndex :
    Index.ofGlyphs? sampleIndex = .ok ⟨"1.0.0", ["a.json"]⟩ ∧ Token.EndsSolid sampleIndex ∧
    IsBeginning (indexHead []) sampleIndex ∧ Index.ofGlyphs? (indexHead []) = .error .ended := by
  obtain ⟨-, hindex, -, -⟩ := refusesBeginnings_ofGlyphs?
  have hsolid : Token.EndsSolid sampleIndex := endsSolid_of_getLast? (by decide)
  have hp : IsBeginning (indexHead []) sampleIndex := .chars (by decide) (by decide)
  refine ⟨ofGlyphs?_sampleIndex, hsolid, hp, ?_⟩
  obtain ⟨c, herror, hc⟩ := hindex _ _ ofGlyphs?_sampleIndex hsolid _ hp
  rcases hc with rfl | ⟨-, hnumber⟩
  · exact herror
  · have hlast : (Token.ofGlyphs (indexHead [])).getLast? = some .comma := by
      rw [indexHead, Token.ofGlyphs_punctuation (by decide) rfl, Token.ofGlyphs_quote,
        Token.ofGlyphs_punctuation (by decide) rfl, Token.ofGlyphs_quote,
        Token.ofGlyphs_punctuation (by decide) rfl, Token.ofGlyphs]
      rfl
    rw [EndsInNumber, hlast] at hnumber
    rcases hnumber with h | h <;> cases h

/-- The beginning of an item with a number under a key that it does not know. -/
def itemHead (rest : List Glyph) : List Glyph :=
  .char '\x7b' :: (Token.glyphs (quote "name").toList ++ .char ':' ::
    (Token.glyphs (quote "A").toList ++ .char ',' ::
      (Token.glyphs (quote "x").toList ++ .char ':' :: rest)))

/-- The rest of an item: its definition. -/
def itemTail : List Glyph :=
  .char ',' :: (Token.glyphs (quote "item").toList ++ .char ':' :: .char '\x7b' ::
    (Token.glyphs (quote "type").toList ++ .char ':' ::
      (Token.glyphs (quote "struct").toList ++ [.char '\x7d', .char '\x7d'])))

lemma ofGlyphs_itemHead (rest : List Glyph) : Token.ofGlyphs (itemHead rest) =
    [.opening .curly, .string (some "name"), .colon, .string (some "A"), .comma,
      .string (some "x"), .colon] ++ Token.ofGlyphs rest := by
  rw [itemHead, Token.ofGlyphs_punctuation (by decide) rfl, Token.ofGlyphs_quote,
    Token.ofGlyphs_punctuation (by decide) rfl, Token.ofGlyphs_quote,
    Token.ofGlyphs_punctuation (by decide) rfl, Token.ofGlyphs_quote,
    Token.ofGlyphs_punctuation (by decide) rfl]
  rfl

lemma ofGlyphs_itemTail : Token.ofGlyphs itemTail =
    [.comma, .string (some "item"), .colon, .opening .curly, .string (some "type"), .colon,
      .string (some "struct"), .closing .curly, .closing .curly] := by
  rw [itemTail, Token.ofGlyphs_punctuation (by decide) rfl, Token.ofGlyphs_quote,
    Token.ofGlyphs_punctuation (by decide) rfl, Token.ofGlyphs_punctuation (by decide) rfl,
    Token.ofGlyphs_quote, Token.ofGlyphs_punctuation (by decide) rfl, Token.ofGlyphs_quote,
    Token.ofGlyphs_punctuation (by decide) rfl, Token.ofGlyphs_punctuation (by decide) rfl,
    Token.ofGlyphs]

/-- A number of which the cut leaves the sign is no JSON to a reader that skips over it. -/
theorem malformed_itemHead :
    itemHead (.char '-' :: .char '1' :: itemTail) = Glyph.ofString
      "\x7b\"name\":\"A\",\"x\":-1,\"item\":\x7b\"type\":\"struct\"\x7d\x7d" ∧
    Item.ofGlyphs? (itemHead (.char '-' :: .char '1' :: itemTail)) =
      .ok ⟨"A", "", "", false, "", .struct ⟨[]⟩⟩ ∧
    Token.EndsSolid (itemHead (.char '-' :: .char '1' :: itemTail)) ∧
    IsBeginning (itemHead [.char '-']) (itemHead (.char '-' :: .char '1' :: itemTail)) ∧
    Item.ofGlyphs? (itemHead [.char '-']) = .error .malformed := by
  have hnumber : Token.ofGlyphs (.char '-' :: .char '1' :: itemTail) =
      .number (some (.integer (-1))) :: Token.ofGlyphs itemTail :=
    Token.ofGlyphs_of_scan (by decide) rfl
  have hsign : Token.ofGlyphs [.char '-'] = [.broken false (Token.missingDigit [])] :=
    Token.ofGlyphs_of_scan_error (by decide) rfl
  refine ⟨by decide, ?_, endsSolid_of_getLast? (by decide), .chars (by decide) (by decide), ?_⟩
  · rw [Item.ofGlyphs?, text, ofGlyphs_itemHead, hnumber, ofGlyphs_itemTail]
    rfl
  · rw [Item.ofGlyphs?, text, ofGlyphs_itemHead, hsign]
    rfl

end SchemaClient.Schema
