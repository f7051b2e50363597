import Mathlib.Data.List.Forall2
import Mathlib.Data.List.Pairwise
import SchemaClient.Proofs.Decoder

/-!
# Documents that change

A record reads the same from an object whose keys stand in another order, and from one with further
keys that it does not know. So does a value of one of several kinds, wherever the key stands that
tells its kind. The changes of a document are put together from those of its records in the way its
decoder is, and may be made in all of them at once.
-/

namespace SchemaClient.Json.Outline

/-- What a value takes over from its parts holds of every value. -/
@[elab_as_elim]
theorem induction_parts {motive : Outline → Prop} (null : motive .null)
    (bool : ∀ b, motive (.bool b)) (number : ∀ n, motive (.number n))
    (string : ∀ s, motive (.string s)) (broken : ∀ b, motive (.broken b))
    (array : ∀ vs stop, (∀ v ∈ vs, motive v) → motive (.array vs stop))
    (object : ∀ es stop, (∀ e ∈ es, motive e.2) → motive (.object es stop)) (v : Outline) :
    motive v := by
  refine @Outline.rec motive (fun vs => ∀ v ∈ vs, motive v) (fun es => ∀ e ∈ es, motive e.2)
    (fun e => motive e.2) null bool number string ?_ ?_ broken ?_ ?_ ?_ ?_ ?_ v
  · exact fun vs stop ih => array vs stop ih
  · exact fun es stop ih => object es stop ih
  · exact List.forall_mem_nil _
  · exact fun v vs hv hvs => List.forall_mem_cons.mpr ⟨hv, hvs⟩
  · exact List.forall_mem_nil _
  · exact fun e es he hes => List.forall_mem_cons.mpr ⟨he, hes⟩
  · exact fun k v hv => hv

variable {depth depth' : Nat}

lemma problemInItems?_eq_none_iff {vs : List Outline} :
    problemInItems? depth vs = none ↔ ∀ v ∈ vs, v.problem? depth = none := by
  induction vs with
  | nil => simp [problemInItems?]
  | cons v vs ih => simp [problemInItems?, ih]

lemma problemInEntries?_eq_none_iff {es : List Entry} :
    problemInEntries? depth es = none ↔ ∀ e ∈ es, e.1 ≠ none ∧ e.2.problem? depth = none := by
  induction es with
  | nil => simp [problemInEntries?]
  | cons e es ih =>
    obtain ⟨_ | k, v⟩ := e
    · simp [problemInEntries?]
    · simp [problemInEntries?, ih]

lemma skipProblemInItems?_eq_none_iff {vs : List Outline} :
    skipProblemInItems? vs = none ↔ ∀ v ∈ vs, v.skipProblem? = none := by
  induction vs with
  | nil => simp [skipProblemInItems?]
  | cons v vs ih => simp [skipProblemInItems?, ih]

lemma skipProblemInEntries?_eq_none_iff {es : List Entry} :
    skipProblemInEntries? es = none ↔ ∀ e ∈ es, e.2.skipProblem? = none := by
  induction es with
  | nil => simp [skipProblemInEntries?]
  | cons e es ih => simp [skipProblemInEntries?, ih]

lemma problemInEntries?_erase {pre post : List Entry} {e : Entry}
    (h : problemInEntries? depth (pre ++ e :: post) = none) :
    problemInEntries? depth (pre ++ post) = none := by
  rw [problemInEntries?_eq_none_iff] at h ⊢
  intro e' he'
  apply h
  simp only [List.mem_append, List.mem_cons] at he' ⊢
  exact he'.imp id .inr

/-- A value that can be taken can be taken where it is nested less deeply. -/
lemma problem?_anti {v : Outline} (hle : depth ≤ depth') (h : v.problem? depth' = none) :
    v.problem? depth = none := by
  induction v using induction_parts generalizing depth depth' with
  | array vs stop ih =>
    rw [problem?_array_eq_none_iff, problemInItems?_eq_none_iff] at h ⊢
    obtain ⟨hroom, hvs, hstop⟩ := h
    exact ⟨by omega, fun v hv => ih v hv (by omega) (hvs v hv), hstop⟩
  | object es stop ih =>
    rw [problem?_object_eq_none_iff, problemInEntries?_eq_none_iff] at h ⊢
    obtain ⟨hroom, hes, hstop⟩ := h
    exact ⟨by omega, fun e he => ⟨(hes e he).1, ih e he (by omega) (hes e he).2⟩, hstop⟩
  | number n => cases n <;> exact h
  | string s => cases s <;> exact h
  | _ => exact h

/-- A value that can be taken can be skipped. -/
lemma skipProblem?_of_problem? {v : Outline} (h : v.problem? depth = none) :
    v.skipProblem? = none := by
  induction v using induction_parts generalizing depth with
  | array vs stop ih =>
    obtain ⟨-, hvs, rfl⟩ := problem?_array_eq_none_iff.mp h
    rw [problemInItems?_eq_none_iff] at hvs
    have hskip : skipProblemInItems? vs = none :=
      skipProblemInItems?_eq_none_iff.mpr fun v hv => ih v hv (hvs v hv)
    simp [skipProblem?, hskip]
  | object es stop ih =>
    obtain ⟨-, hes, rfl⟩ := problem?_object_eq_none_iff.mp h
    rw [problemInEntries?_eq_none_iff] at hes
    have hskip : skipProblemInEntries? es = none :=
      skipProblemInEntries?_eq_none_iff.mpr fun e he => ih e he (hes e he).2
    simp [skipProblem?, hskip]
  | broken b => simp [problem?] at h
  | _ => simp [skipProblem?]

end SchemaClient.Json.Outline

namespace SchemaClient.Json.Decode
open Outline

/-- How a value may change from one document to the next. -/
abbrev Change := Outline → Outline → Prop

/-- The keys of a record, each with the changes its value may undergo. -/
abbrev FieldChanges := List (String × Change)

/-- An entry whose key a record does not know. -/
def IsExtra (fields : FieldChanges) (e : Entry) : Prop :=
  ∃ k v, e = (some k, v) ∧ fields.lookup k = none

/-- A change of an entry. The value of a key that the record does not know may be any other. -/
inductive EntryChange (fields : FieldChanges) : Entry → Entry → Prop
  | known {k : String} {change : Change} {u v : Outline} (hkey : fields.lookup k = some change)
      (h : change u v) : EntryChange fields (some k, u) (some k, v)
  | extra {k : String} (hkey : fields.lookup k = none) (u v : Outline) :
      EntryChange fields (some k, u) (some k, v)

/-- Changes of the items of an array that lists the fields of a record in their order. -/
inductive ItemsChange : FieldChanges → List Outline → List Outline → Prop
  | nil (fields : FieldChanges) : ItemsChange fields [] []
  | cons {k : String} {change : Change} {fields : FieldChanges} {u v : Outline}
      {us vs : List Outline} (first : change u v) (rest : ItemsChange fields us vs) :
      ItemsChange ((k, change) :: fields) (u :: us) (v :: vs)

/-- A change of a record: its entries are changed one by one, entries that it does not know are
added, and all are put in any order. -/
inductive RecordChange (fields : FieldChanges) : Change
  | object {es kept added es' : List Entry} (hkept : List.Forall₂ (EntryChange fields) es kept)
      (hadded : ∀ e ∈ added, IsExtra fields e) (horder : (kept ++ added).Perm es') :
      RecordChange fields (.object es none) (.object es' none)
  | array {us vs : List Outline} (h : ItemsChange fields us vs) :
      RecordChange fields (.array us none) (.array vs none)

/-- Changes of the items of an array. -/
inductive ListChange (change : Change) : Change
  | array {us vs : List Outline} (h : List.Forall₂ change us vs) :
      ListChange change (.array us none) (.array vs none)

/-- A change of a value of one of several kinds: the key that tells the kind stands anywhere, and
once; what else there is changes as the kind allows. -/
inductive TaggedChange {τ : Type} (key : String) (tag : Decoder τ) (payload : τ → Change) : Change
  | object {t : Outline} {pre post pre' post' : List Entry}
      (hbefore : ∀ e ∈ pre ++ post, e.1 ≠ some key) (hafter : ∀ e ∈ pre' ++ post', e.1 ≠ some key)
      (h : ∀ kind, tag t = .ok kind →
        payload kind (.object (pre ++ post) none) (.object (pre' ++ post') none)) :
      TaggedChange key tag payload (.object (pre ++ (some key, t) :: post) none)
        (.object (pre' ++ (some key, t) :: post') none)
  | array {t : Outline} {us vs : List Outline}
      (h : ∀ kind, tag t = .ok kind → payload kind (.array us none) (.array vs none)) :
      TaggedChange key tag payload (.array (t :: us) none) (.array (t :: vs) none)

/-- Changes of an object that nobody looks into. -/
inductive OpaqueChange : Change
  | object (es es' : List Entry) : OpaqueChange (.object es none) (.object es' none)
  | self (v : Outline) : OpaqueChange v v

/-- What a decoder accepts may stay as it is, and if it changes into a valid value it is decoded to
the same. -/
structure Respects {α : Type} (valid : Outline → Prop) (change : Change) (decode : Decoder α) :
    Prop where
  self : ∀ v a, decode v = .ok a → change v v
  same : ∀ u v a, valid v → change u v → decode u = .ok a → decode v = .ok a

/-- A validity that the parts of a value share with it, and that lets a value be skipped. -/
structure Hereditary (valid : Outline → Prop) : Prop where
  skip : ∀ v, valid v → v.skipProblem? = none
  item : ∀ vs stop, valid (.array vs stop) → ∀ v ∈ vs, valid v
  entry : ∀ es stop, valid (.object es stop) → ∀ e ∈ es, valid e.2

lemma hereditary_skipProblem? : Hereditary (·.skipProblem? = none) := by
  refine ⟨fun v hv => hv, ?_, ?_⟩
  · intro vs stop h
    rw [skipProblem?, Option.or_eq_none_iff] at h
    exact skipProblemInItems?_eq_none_iff.mp h.1
  · intro es stop h
    rw [skipProblem?, Option.or_eq_none_iff] at h
    exact skipProblemInEntries?_eq_none_iff.mp h.1

lemma hereditary_problem? : Hereditary (·.problem? 0 = none) := by
  refine ⟨fun v hv => skipProblem?_of_problem? hv, ?_, ?_⟩
  · intro vs stop h v hv
    obtain ⟨-, hvs, -⟩ := problem?_array_eq_none_iff.mp h
    exact problem?_anti (Nat.zero_le _) (problemInItems?_eq_none_iff.mp hvs v hv)
  · intro es stop h e he
    obtain ⟨-, hes, -⟩ := problem?_object_eq_none_iff.mp h
    exact problem?_anti (Nat.zero_le _) (problemInEntries?_eq_none_iff.mp hes e he).2

variable {valid : Outline → Prop} {α : Type} {decode : Decoder α} {change : Change}

lemma respects_eq : Respects valid Eq decode := by
  refine ⟨fun _ _ _ => rfl, ?_⟩
  rintro u v a - rfl h
  exact h

lemma forall₂_of_each (h : Respects valid change decode) {vs : List Outline} {as : List α}
    (hvs : each decode vs = .ok as) : List.Forall₂ change vs vs := by
  induction vs generalizing as with
  | nil => exact .nil
  | cons v vs ih =>
    obtain ⟨a, ha, hvs⟩ := bind_eq_ok_iff.mp hvs
    obtain ⟨as', has', -⟩ := bind_eq_ok_iff.mp hvs
    exact .cons (h.self v a ha) (ih has')

lemma each_of_forall₂ (h : Respects valid change decode) {us vs : List Outline} {as : List α}
    (hvalid : ∀ v ∈ vs, valid v) (hchange : List.Forall₂ change us vs)
    (hus : each decode us = .ok as) : each decode vs = .ok as := by
  induction hchange generalizing as with
  | nil => exact hus
  | @cons u v us vs hfirst _ ih =>
    obtain ⟨hv, hvs⟩ := List.forall_mem_cons.mp hvalid
    obtain ⟨a, ha, hus⟩ := bind_eq_ok_iff.mp hus
    obtain ⟨as', has', hus⟩ := bind_eq_ok_iff.mp hus
    rw [each, h.same u v a hv hfirst ha, ih hvs has']
    exact hus

lemma respects_list (h : Respects valid change decode) (hvalid : Hereditary valid) :
    Respects valid (ListChange change) (list decode) := by
  constructor
  · intro v as hv
    cases v with
    | array vs stop =>
      obtain ⟨as', has', hv⟩ := bind_eq_ok_iff.mp hv
      obtain ⟨_, hstop, -⟩ := bind_eq_ok_iff.mp hv
      obtain rfl := check_stop_eq_ok_iff.mp hstop
      exact .array (forall₂_of_each h has')
    | _ => cases hv
  · rintro _ _ as hv ⟨hchange⟩ hu
    obtain ⟨as', has', hu⟩ := bind_eq_ok_iff.mp hu
    rw [list, each_of_forall₂ h (hvalid.item _ _ hv) hchange has']
    exact hu

section Records

variable {ρ : Type} {slots : List (Slot ρ)} {fields : FieldChanges} {es es' : List Entry}
  {r r' : ρ} {k : String}

/-- What a slot stores may stay as it is by the changes of a field, and if it changes into a valid
value the same is stored. -/
structure Slot.Fits (valid : Outline → Prop) (slot : Slot ρ) (field : String × Change) : Prop where
  key : slot.key = field.1
  self : ∀ v r r', slot.store v r = .ok r' → field.2 v v
  same : ∀ u v r r', valid v → field.2 u v → slot.store u r = .ok r' → slot.store v r = .ok r'

lemma fits_of_map {isRequired : Bool} {set : α → ρ → ρ} (h : Respects valid change decode) :
    Slot.Fits valid ⟨k, isRequired, fun v r => (decode v).map (set · r)⟩ (k, change) := by
  refine ⟨rfl, ?_, ?_⟩
  · intro v r r' hv
    obtain ⟨a, ha, -⟩ := map_eq_ok_iff.mp hv
    exact h.self v a ha
  · intro u v r r' hv hchange hu
    obtain ⟨a, ha, hset⟩ := map_eq_ok_iff.mp hu
    exact map_eq_ok_iff.mpr ⟨a, h.same u v a hv hchange ha, hset⟩

lemma fits_required {set : α → ρ → ρ} (h : Respects valid change decode) :
    (required k decode set).Fits valid (k, change) :=
  fits_of_map h

lemma fits_defaulted {set : α → ρ → ρ} (h : Respects valid change decode) :
    (defaulted k decode set).Fits valid (k, change) :=
  fits_of_map h

/-- A key has a slot and a field that fits it, or neither. -/
lemma find?_and_lookup (hfits : List.Forall₂ (Slot.Fits valid) slots fields) (k : String) :
    (slots.find? (·.key == k) = none ∧ fields.lookup k = none) ∨
      ∃ slot change, slots.find? (·.key == k) = some slot ∧ fields.lookup k = some change ∧
        slot.Fits valid (k, change) := by
  induction hfits with
  | nil => exact .inl ⟨rfl, rfl⟩
  | @cons slot field slots fields hfirst _ ih =>
    obtain ⟨key, change⟩ := field
    have heq : slot.key = key := hfirst.key
    by_cases h : key = k
    · subst h
      exact .inr ⟨slot, change, List.find?_cons_of_pos (by simp [heq]), List.lookup_cons_self,
        hfirst⟩
    · rwa [List.find?_cons_of_neg (by simp [heq, h]), List.lookup_cons,
        beq_eq_false_iff_ne.mpr (Ne.symm h)]

lemma find?_of_lookup (hfits : List.Forall₂ (Slot.Fits valid) slots fields)
    (hkey : fields.lookup k = some change) :
    ∃ slot, slots.find? (·.key == k) = some slot ∧ slot.Fits valid (k, change) := by
  rcases find?_and_lookup hfits k with ⟨-, hnone⟩ | ⟨slot, change', hslot, hsome, hfit⟩
  · cases hkey.symm.trans hnone
  · obtain rfl := Option.some.inj (hkey.symm.trans hsome)
    exact ⟨slot, hslot, hfit⟩

lemma find?_of_lookup_eq_none (hfits : List.Forall₂ (Slot.Fits valid) slots fields)
    (hkey : fields.lookup k = none) : slots.find? (·.key == k) = none := by
  rcases find?_and_lookup hfits k with ⟨hnone, -⟩ | ⟨slot, change, -, hsome, -⟩
  · exact hnone
  · cases hkey.symm.trans hsome

/-- Two values may be stored in either order. -/
def Slot.Commutes (s t : Slot ρ) : Prop :=
  ∀ u v r r', (s.store u r >>= t.store v) = .ok r' ↔ (t.store v r >>= s.store u) = .ok r'

instance : Std.Symm (@Slot.Commutes ρ) where
  symm _ _ h u v r r' := (h v u r r').symm

lemma fills_append_iff {r'' : ρ} :
    Fills slots (es ++ es') r r'' ↔ ∃ r', Fills slots es r r' ∧ Fills slots es' r' r'' := by
  constructor
  · intro h
    induction es generalizing r with
    | nil => exact ⟨r, .nil r, h⟩
    | cons e es ih =>
      cases h with
      | skip hkey hskip rest =>
        obtain ⟨r', hes, hes'⟩ := ih rest
        exact ⟨r', .skip hkey hskip hes, hes'⟩
      | store hkey first rest =>
        obtain ⟨r', hes, hes'⟩ := ih rest
        exact ⟨r', .store hkey first hes, hes'⟩
  · rintro ⟨r', hes, hes'⟩
    induction hes with
    | nil => exact hes'
    | skip hkey hskip _ ih => exact .skip hkey hskip (ih hes')
    | store hkey first _ ih => exact .store hkey first (ih hes')

lemma commutes_of_ne (hslots : slots.Pairwise Slot.Commutes) {k' : String} {s t : Slot ρ}
    (hs : slots.find? (·.key == k) = some s) (ht : slots.find? (·.key == k') = some t)
    (hne : k ≠ k') : s.Commutes t := by
  have hkey : s.key = k := by simpa using List.find?_some hs
  have hkey' : t.key = k' := by simpa using List.find?_some ht
  refine hslots.forall (List.mem_of_find?_eq_some hs) (List.mem_of_find?_eq_some ht) ?_
  rintro rfl
  exact hne (hkey.symm.trans hkey')

/-- Entries may be stored in any order. -/
theorem Fills.perm (hslots : slots.Pairwise Slot.Commutes) (horder : es.Perm es')
    (hkeys : (storedKeys slots es).Nodup) (hfills : Fills slots es r r') :
    Fills slots es' r r' := by
  induction horder generalizing r with
  | nil => exact hfills
  | cons e _ ih =>
    cases hfills with
    | skip hkey hskip rest =>
      rw [storedKeys_cons_of_none hkey] at hkeys
      exact .skip hkey hskip (ih hkeys rest)
    | store hkey first rest =>
      rw [storedKeys_cons_of_some hkey] at hkeys
      exact .store hkey first (ih (List.nodup_cons.mp hkeys).2 rest)
  | swap e e' es =>
    cases hfills with
    | skip hkey hskip rest =>
      cases rest with
      | skip hkey' hskip' rest => exact .skip hkey' hskip' (.skip hkey hskip rest)
      | store hkey' first' rest => exact .store hkey' first' (.skip hkey hskip rest)
    | store hkey first rest =>
      cases rest with
      | skip hkey' hskip' rest => exact .skip hkey' hskip' (.store hkey first rest)
      | @store k' _ slot' _ _ _ _ hkey' first' rest =>
        rw [storedKeys_cons_of_some hkey, storedKeys_cons_of_some hkey'] at hkeys
        have hne := List.ne_of_not_mem_cons (List.nodup_cons.mp hkeys).1
        obtain ⟨r₂, hfirst, hsecond⟩ := bind_eq_ok_iff.mp
          ((commutes_of_ne hslots hkey hkey' hne _ _ _ _).mp
            (bind_eq_ok_iff.mpr ⟨_, first, first'⟩))
        exact .store hkey' hfirst (.store hkey hsecond rest)
  | trans horder _ ih ih' =>
    exact ih' ((horder.filterMap _).nodup_iff.mp hkeys) (ih hkeys hfills)

/-- Fields that are set apart from each other may be stored in either order. -/
lemma commutes_of_map {α β : Type} {decode : Decoder α} {decode' : Decoder β} {set : α → ρ → ρ}
    {set' : β → ρ → ρ} {k k' : String} {isRequired isRequired' : Bool}
    (h : ∀ a b r, set' b (set a r) = set a (set' b r)) :
    Slot.Commutes ⟨k, isRequired, fun v r => (decode v).map (set · r)⟩
      ⟨k', isRequired', fun v r => (decode' v).map (set' · r)⟩ := by
  intro u v r r'
  dsimp only
  cases decode u with
  | error c => cases decode' v <;> simp [bind, Except.bind, Except.map]
  | ok a =>
    cases decode' v with
    | error c => simp [bind, Except.bind, Except.map]
    | ok b => simp [bind, Except.bind, Except.map, h]

/-- Entries that lead somewhere may stay as they are. -/
lemma entryChange_self (hfits : List.Forall₂ (Slot.Fits valid) slots fields)
    (hfills : Fills slots es r r') : List.Forall₂ (EntryChange fields) es es := by
  induction hfills with
  | nil => exact .nil
  | @skip k v _ _ _ hkey _ _ ih =>
    rcases find?_and_lookup hfits k with ⟨-, hnone⟩ | ⟨slot, change, hslot, -, -⟩
    · exact .cons (.extra hnone v v) ih
    · cases hkey.symm.trans hslot
  | @store k v _ _ _ _ _ hkey first _ ih =>
    rcases find?_and_lookup hfits k with ⟨hnone, -⟩ | ⟨slot, change, hslot, hsome, hfit⟩
    · cases hkey.symm.trans hnone
    · obtain rfl := Option.some.inj (hkey.symm.trans hslot)
      exact .cons (.known hsome (hfit.self _ _ _ first)) ih

/-- Changed entries lead where the entries before led. -/
lemma fills_of_change (hfits : List.Forall₂ (Slot.Fits valid) slots fields)
    (hvalid : ∀ e ∈ es', valid e.2) (hskip : ∀ v, valid v → v.skipProblem? = none)
    (h : List.Forall₂ (EntryChange fields) es es') (hfills : Fills slots es r r') :
    Fills slots es' r r' ∧ storedKeys slots es' = storedKeys slots es := by
  induction h generalizing r with
  | nil => exact ⟨hfills, rfl⟩
  | @cons e e' es es' hfirst _ ih =>
    obtain ⟨hv, hvs⟩ := List.forall_mem_cons.mp hvalid
    cases hfirst with
    | known hkey hchange =>
      obtain ⟨slot, hslot, hfit⟩ := find?_of_lookup hfits hkey
      obtain ⟨r₁, first, rest⟩ := (fills_cons_iff_of_some hslot).mp hfills
      obtain ⟨hfills, hkeys⟩ := ih hvs rest
      exact ⟨.store hslot (hfit.same _ _ _ _ hv hchange first) hfills, by
        rw [storedKeys_cons_of_some hslot, storedKeys_cons_of_some hslot, hkeys]⟩
    | extra hkey =>
      have hnone := find?_of_lookup_eq_none hfits hkey
      obtain ⟨-, rest⟩ := (fills_cons_iff_of_none hnone).mp hfills
      obtain ⟨hfills, hkeys⟩ := ih hvs rest
      exact ⟨.skip hnone (hskip _ hv) hfills, by
        rw [storedKeys_cons_of_none hnone, storedKeys_cons_of_none hnone, hkeys]⟩

/-- Entries that the record does not know lead nowhere. -/
lemma fills_of_extra (hfits : List.Forall₂ (Slot.Fits valid) slots fields)
    (hvalid : ∀ e ∈ es, valid e.2) (hskip : ∀ v, valid v → v.skipProblem? = none)
    (h : ∀ e ∈ es, IsExtra fields e) (r : ρ) :
    Fills slots es r r ∧ storedKeys slots es = [] := by
  induction es with
  | nil => exact ⟨.nil r, rfl⟩
  | cons e es ih =>
    obtain ⟨hv, hvs⟩ := List.forall_mem_cons.mp hvalid
    obtain ⟨⟨k, v, rfl, hkey⟩, hextra⟩ := List.forall_mem_cons.mp h
    obtain ⟨hfills, hkeys⟩ := ih hvs hextra
    have hnone := find?_of_lookup_eq_none hfits hkey
    exact ⟨.skip hnone (hskip v hv) hfills, by rw [storedKeys_cons_of_none hnone, hkeys]⟩

lemma itemsChange_self (hfits : List.Forall₂ (Slot.Fits valid) slots fields) {surplus : Cause}
    {stop : Option Break} {vs : List Outline} (h : storeItems surplus stop slots vs r = .ok r') :
    ItemsChange fields vs vs := by
  induction hfits generalizing vs r with
  | nil =>
    cases vs with
    | nil => exact .nil _
    | cons v vs => cases h
  | cons hfit _ ih =>
    cases vs with
    | nil => exact .nil _
    | cons v vs =>
      obtain ⟨r₁, hr₁, h⟩ := bind_eq_ok_iff.mp h
      exact .cons (hfit.self _ _ _ hr₁) (ih h)

lemma storeItems_of_change (hfits : List.Forall₂ (Slot.Fits valid) slots fields) {surplus : Cause}
    {us vs : List Outline} (hvalid : ∀ v ∈ vs, valid v)
    (h : ItemsChange fields us vs) (hus : storeItems surplus none slots us r = .ok r') :
    storeItems surplus none slots vs r = .ok r' := by
  induction h generalizing slots r with
  | nil => exact hus
  | cons hfirst _ ih =>
    cases hfits with
    | cons hfit hfits =>
      obtain ⟨hv, hvs⟩ := List.forall_mem_cons.mp hvalid
      obtain ⟨r₁, hr₁, hus⟩ := bind_eq_ok_iff.mp hus
      rw [storeItems, hfit.same _ _ _ _ hv hfirst hr₁]
      exact ih hfits hvs hus

lemma recordChange_self (hfits : List.Forall₂ (Slot.Fits valid) slots fields) {surplus : Cause}
    {v : Outline} (h : record surplus slots r v = .ok r') : RecordChange fields v v := by
  cases v with
  | object es stop =>
    obtain ⟨x, -, hrest⟩ := bind_eq_ok_iff.mp h
    obtain ⟨_, hstop, -⟩ := bind_eq_ok_iff.mp hrest
    obtain rfl := check_stop_eq_ok_iff.mp hstop
    obtain ⟨hfills, -, -⟩ := record_object_eq_ok_iff.mp h
    exact .object (entryChange_self hfits hfills) (List.forall_mem_nil _)
      (.of_eq (List.append_nil es))
  | array vs stop =>
    obtain rfl := stop_of_storeItems h
    exact .array (itemsChange_self hfits h)
  | _ => cases h

lemma record_of_change (hfits : List.Forall₂ (Slot.Fits valid) slots fields)
    (hslots : slots.Pairwise Slot.Commutes) (hvalid : Hereditary valid) {surplus : Cause}
    {u v : Outline} (hv : valid v) (h : RecordChange fields u v)
    (hu : record surplus slots r u = .ok r') : record surplus slots r v = .ok r' := by
  cases h with
  | @object es kept added es' hkept hadded horder =>
    have hes := hvalid.entry es' none hv
    have hvkept : ∀ e ∈ kept, valid e.2 := fun e he =>
      hes e (horder.subset (List.mem_append_left _ he))
    have hvadded : ∀ e ∈ added, valid e.2 := fun e he =>
      hes e (horder.subset (List.mem_append_right _ he))
    obtain ⟨hfills, hnodup, hrequired⟩ := record_object_eq_ok_iff.mp hu
    obtain ⟨hfills, hkeys⟩ := fills_of_change hfits hvkept hvalid.skip hkept hfills
    obtain ⟨hfills', hkeys'⟩ := fills_of_extra hfits hvadded hvalid.skip hadded r'
    have hall : storedKeys slots (kept ++ added) = storedKeys slots es := by
      rw [storedKeys_append, hkeys, hkeys', List.append_nil]
    have horder' : (storedKeys slots es).Perm (storedKeys slots es') :=
      hall ▸ horder.filterMap _
    refine record_object_eq_ok_iff.mpr ⟨?_, horder'.nodup_iff.mp hnodup, ?_⟩
    · exact (fills_append_iff.mpr ⟨r', hfills, hfills'⟩).perm hslots horder (hall ▸ hnodup)
    · exact fun slot hslot hreq => horder'.subset (hrequired slot hslot hreq)
  | array hitems => exact storeItems_of_change hfits (hvalid.item _ _ hv) hitems hu

/-- A record is the same in another order, with further keys, and with fields that have changed in
ways which their decoders respect. -/
theorem respects_record (hfits : List.Forall₂ (Slot.Fits valid) slots fields)
    (hslots : slots.Pairwise Slot.Commutes) (hvalid : Hereditary valid)
    (surplus : Cause) (initial : ρ) :
    Respects valid (RecordChange fields) (record surplus slots initial) where
  self _ _ h := recordChange_self hfits h
  same _ _ _ hv hchange hu := record_of_change hfits hslots hvalid hv hchange hu

/-- Another value under the key of a field gives the record with that field set anew. -/
theorem record_replace (surplus : Cause) (set : α → ρ → ρ)
    (hset : ∀ a b r, set b (set a r) = set b r) (hslots : slots.Pairwise Slot.Commutes)
    {isRequired : Bool} (hkey : slots.find? (·.key == k) =
      some ⟨k, isRequired, fun v r => (decode v).map (set · r)⟩) {u v : Outline} {b : α}
    (hv : decode v = .ok b)
    (h : record surplus slots r (.object (es ++ (some k, u) :: es') none) = .ok r') :
    record surplus slots r (.object (es ++ (some k, v) :: es') none) = .ok (set b r') := by
  have hlast (w : Outline) : (es ++ (some k, w) :: es').Perm (es ++ es' ++ [(some k, w)]) :=
    List.perm_middle.trans (List.perm_append_singleton _ _).symm
  have hkeys (w : Outline) : storedKeys slots (es ++ (some k, w) :: es') =
      storedKeys slots es ++ k :: storedKeys slots es' := by
    rw [storedKeys_append, storedKeys_cons_of_some hkey]
  obtain ⟨hfills, hnodup, hrequired⟩ := record_object_eq_ok_iff.mp h
  obtain ⟨m, hm, hu⟩ := fills_append_iff.mp (hfills.perm hslots (hlast u) hnodup)
  obtain ⟨m', first, ⟨⟩⟩ := (fills_cons_iff_of_some hkey).mp hu
  obtain ⟨a, -, rfl⟩ := map_eq_ok_iff.mp first
  have hfills' : Fills slots (es ++ es' ++ [(some k, v)]) r (set b m) :=
    fills_append_iff.mpr ⟨m, hm, .store hkey (map_eq_ok_iff.mpr ⟨b, hv, rfl⟩) (.nil _)⟩
  rw [hkeys u, ← hkeys v] at hnodup hrequired
  refine record_object_eq_ok_iff.mpr ⟨?_, hnodup, hrequired⟩
  rw [hset]
  exact hfills'.perm hslots (hlast v).symm (((hlast v).filterMap _).nodup_iff.mp hnodup)

end Records

section Tags

variable {τ : Type} {key : String} {tag : Decoder τ} {depth : Nat} {payload : τ → Decoder α}
  {a : α}

lemma problem?_of_string {v : Outline} {s : String} (h : string v = .ok s) (depth : Nat) :
    v.problem? depth = none := by
  unfold string at h
  split at h
  · rfl
  · cases h

/-- A decoded value of one of several kinds can be taken where there is room for it. -/
lemma problem?_of_tagged (htag : ∀ t kind, tag t = .ok kind → t.problem? (depth + 1) = none)
    (hroom : depth < maxDepth) {v : Outline} (h : tagged key tag depth payload v = .ok a) :
    v.problem? depth = none := by
  rcases exists_of_tagged h with ⟨pre, t, post, rfl, hkeys⟩ | ⟨t, vs, rfl⟩
  · obtain ⟨hentries, kind, hkind, -⟩ := (tagged_object_eq_ok_iff hkeys).mp h
    rw [problemInEntries?_append, Option.or_eq_none_iff] at hentries
    refine problem?_object_eq_none_iff.mpr ⟨hroom, ?_, rfl⟩
    simp [problemInEntries?_append, problemInEntries?, hentries, htag t kind hkind]
  · obtain ⟨hitems, kind, hkind, -⟩ := tagged_array_eq_ok_iff.mp h
    refine problem?_array_eq_none_iff.mpr ⟨hroom, ?_, rfl⟩
    simp [problemInItems?, hitems, htag t kind hkind]

lemma taggedChange_self {change : τ → Change}
    (h : ∀ kind, Respects valid (change kind) (payload kind)) {v : Outline}
    (hv : tagged key tag depth payload v = .ok a) : TaggedChange key tag change v v := by
  rcases exists_of_tagged hv with ⟨pre, t, post, rfl, hkeys⟩ | ⟨t, vs, rfl⟩
  · obtain ⟨-, kind, hkind, hpayload⟩ := (tagged_object_eq_ok_iff hkeys).mp hv
    refine .object hkeys hkeys fun kind' hkind' => ?_
    obtain rfl := Except.ok.inj (hkind.symm.trans hkind')
    exact (h kind).self _ a hpayload
  · obtain ⟨-, kind, hkind, hpayload⟩ := tagged_array_eq_ok_iff.mp hv
    refine .array fun kind' hkind' => ?_
    obtain rfl := Except.ok.inj (hkind.symm.trans hkind')
    exact (h kind).self _ a hpayload

theorem respects_tagged {change : τ → Change}
    (h : ∀ kind, Respects (·.problem? 0 = none) (change kind) (payload kind)) :
    Respects (·.problem? depth = none) (TaggedChange key tag change)
      (tagged key tag depth payload) := by
  refine ⟨fun v a hv => taggedChange_self h hv, ?_⟩
  intro u v a hv hchange hu
  cases hchange with
  | @object t pre post pre' post' hbefore hafter hpayload =>
    obtain ⟨-, kind, hkind, hu⟩ := (tagged_object_eq_ok_iff hbefore).mp hu
    obtain ⟨hroom, hentries, -⟩ := problem?_object_eq_none_iff.mp hv
    have hrest := problemInEntries?_erase hentries
    have hvalid : (Outline.object (pre' ++ post') none).problem? 0 = none :=
      problem?_anti (Nat.zero_le depth) (problem?_object_eq_none_iff.mpr ⟨hroom, hrest, rfl⟩)
    exact (tagged_object_eq_ok_iff hafter).mpr
      ⟨hrest, kind, hkind, (h kind).same _ _ a hvalid (hpayload kind hkind) hu⟩
  | @array t us vs hpayload =>
    obtain ⟨-, kind, hkind, hu⟩ := tagged_array_eq_ok_iff.mp hu
    obtain ⟨hroom, hitems, -⟩ := problem?_array_eq_none_iff.mp hv
    rw [problemInItems?, Option.or_eq_none_iff] at hitems
    have hvalid : (Outline.array vs none).problem? 0 = none :=
      problem?_anti (Nat.zero_le depth) (problem?_array_eq_none_iff.mpr ⟨hroom, hitems.2, rfl⟩)
    exact tagged_array_eq_ok_iff.mpr
      ⟨hitems.2, kind, hkind, (h kind).same _ _ a hvalid (hpayload kind hkind) hu⟩

end Tags

section Texts

variable {gs gs' : List Text.Glyph} {v : Outline} {a : α}

/-- A text of a JSON value with this outline. -/
structure IsTextOf (v : Outline) (gs : List Text.Glyph) : Prop where
  outline : ofTokens (Token.ofGlyphs gs) = (v, [])
  complete : v.skipProblem? = none

/-- A document that is accepted may stay as it is, and however it changes it says the same. -/
structure StableUnder (change : Change) (decode : List Text.Glyph → Except Cause α) : Prop where
  self : ∀ gs a, decode gs = .ok a →
    change (ofTokens (Token.ofGlyphs gs)).1 (ofTokens (Token.ofGlyphs gs)).1
  same : ∀ gs gs' v a, change (ofTokens (Token.ofGlyphs gs)).1 v → IsTextOf v gs' →
    decode gs = .ok a → decode gs' = .ok a

lemma stableUnder_text (h : Respects (·.skipProblem? = none) change decode) :
    StableUnder change (text decode) := by
  constructor
  · intro gs a hgs
    obtain ⟨b, hb, -⟩ := bind_eq_ok_iff.mp hgs
    exact h.self _ b hb
  · intro gs gs' v a hchange hgs' hgs
    obtain ⟨b, hb, hend⟩ := bind_eq_ok_iff.mp hgs
    split at hend
    · obtain rfl := Except.ok.inj hend
      simp only [text, hgs'.outline, h.same _ v b hgs'.complete hchange hb]
      rfl
    · cases hend

end Texts

end SchemaClient.Json.Decode
