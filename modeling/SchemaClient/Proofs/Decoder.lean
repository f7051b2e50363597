import Mathlib.Data.List.Basic
import Mathlib.Data.List.Nodup
import Mathlib.Tactic.Lemma
import SchemaClient.Json.Decode
import SchemaClient.Proofs.JsonReading

/-!
# Laws of the decoders

A decoder of records undoes an encoder that writes the fields in the order of their slots, and
what holds of the defaults of a record and is kept by every slot holds of every decoded record. The
entries of an object lead from the defaults to the record, one after the other; the key that tells
the kind of a value may stand anywhere among them.
-/

namespace SchemaClient.Json.Outline

lemma problemInItems?_append (depth : Nat) (vs ws : List Outline) :
    problemInItems? depth (vs ++ ws) =
      (problemInItems? depth vs).or (problemInItems? depth ws) := by
  induction vs with
  | nil => rfl
  | cons v vs ih => simp only [List.cons_append, problemInItems?, ih, Option.or_assoc]

lemma problemInEntries?_append (depth : Nat) (es fs : List Entry) :
    problemInEntries? depth (es ++ fs) =
      (problemInEntries? depth es).or (problemInEntries? depth fs) := by
  induction es with
  | nil => rfl
  | cons e es ih =>
    obtain ⟨_ | k, v⟩ := e
    · rfl
    · simp only [List.cons_append, problemInEntries?, ih, Option.or_assoc]

lemma problem?_array_eq_none_iff {depth : Nat} {vs : List Outline} {stop : Option Break} :
    (Outline.array vs stop).problem? depth = none ↔
      depth < maxDepth ∧ problemInItems? (depth + 1) vs = none ∧ stop = none := by
  by_cases h : depth < maxDepth
  · simp [problem?, h, Nat.not_le_of_lt h]
  · simp [problem?, h, Nat.le_of_not_lt h]

lemma problem?_object_eq_none_iff {depth : Nat} {es : List Entry} {stop : Option Break} :
    (Outline.object es stop).problem? depth = none ↔
      depth < maxDepth ∧ problemInEntries? (depth + 1) es = none ∧ stop = none := by
  by_cases h : depth < maxDepth
  · simp [problem?, h, Nat.not_le_of_lt h]
  · simp [problem?, h, Nat.le_of_not_lt h]

end SchemaClient.Json.Outline

namespace SchemaClient.Json.Decode
open Outline Text

lemma map_eq_ok_iff {α β : Type} {x : Except Cause α} {f : α → β} {b : β} :
    x.map f = .ok b ↔ ∃ a, x = .ok a ∧ f a = b := by
  cases x with
  | error c => simp [Except.map]
  | ok a => simp [Except.map]

lemma bind_eq_ok_iff {ε α β : Type} {x : Except ε α} {f : α → Except ε β} {b : β} :
    x >>= f = .ok b ↔ ∃ a, x = .ok a ∧ f a = .ok b := by
  cases x with
  | error c => simp [bind, Except.bind]
  | ok a => simp [bind, Except.bind]

lemma check_eq_ok_iff {problem : Option Cause} {x : Unit} :
    check problem = .ok x ↔ problem = none := by
  cases problem <;> simp [check]

lemma check_stop_eq_ok_iff {stop : Option Break} {x : Unit} :
    check (stop.map (·.taken)) = .ok x ↔ stop = none := by
  rw [check_eq_ok_iff, Option.map_eq_none_iff]

lemma string_ofJson (s : String) : string (ofJson (.string s)) = .ok s :=
  rfl

lemma bool_ofJson (b : Bool) : bool (ofJson (.bool b)) = .ok b :=
  rfl

lemma optional_of_string {α : Type} {decode : Decoder α} {s : String} {a : α}
    (h : decode (.string (some s)) = .ok a) :
    optional decode (ofJson (.string s)) = .ok (some a) := by
  calc optional decode (.string (some s))
      = (decode (.string (some s))).map some := rfl
    _ = .ok (some a) := by rw [h]; rfl

lemma of_optional {α : Type} {decode : Decoder α} {v : Outline} {a : α}
    (h : optional decode v = .ok (some a)) : decode v = .ok a := by
  unfold optional at h
  split at h
  · cases h
  · obtain ⟨b, hb, hsome⟩ := map_eq_ok_iff.mp h
    rw [hb, Option.some.inj hsome]

lemma optional_string_ofJson (s : Option String) :
    optional string (ofJson (.optional s)) = .ok s := by
  cases s with
  | none => rfl
  | some s => exact optional_of_string rfl

lemma list_ofJson {α : Type} {decode : Decoder α} {encode : α → Json} {as : List α}
    (h : ∀ a ∈ as, decode (ofJson (encode a)) = .ok a) :
    list decode (ofJson (.array (as.map encode))) = .ok as := by
  have heach : each decode (ofItems (as.map encode)) = .ok as := by
    induction as with
    | nil => rfl
    | cons a as ih =>
      obtain ⟨ha, has⟩ := List.forall_mem_cons.mp h
      rw [List.map_cons, ofItems, each, ha, ih has]
      rfl
  rw [ofJson, list, heach]
  rfl

lemma mem_of_each {α : Type} {decode : Decoder α} {vs : List Outline} {as : List α}
    (h : each decode vs = .ok as) {a : α} (ha : a ∈ as) : ∃ v, decode v = .ok a := by
  induction vs generalizing as with
  | nil =>
    obtain rfl := Except.ok.inj h
    exact absurd ha List.not_mem_nil
  | cons v vs ih =>
    obtain ⟨b, hb, h⟩ := bind_eq_ok_iff.mp h
    obtain ⟨bs, hbs, h⟩ := bind_eq_ok_iff.mp h
    obtain rfl := Except.ok.inj h
    rcases List.mem_cons.mp ha with rfl | ha
    · exact ⟨v, hb⟩
    · exact ih hbs ha

lemma mem_of_list {α : Type} {decode : Decoder α} {v : Outline} {as : List α}
    (h : list decode v = .ok as) {a : α} (ha : a ∈ as) : ∃ u, decode u = .ok a := by
  cases v with
  | array vs stop =>
    obtain ⟨bs, hbs, h⟩ := bind_eq_ok_iff.mp h
    obtain ⟨-, -, h⟩ := bind_eq_ok_iff.mp h
    obtain rfl := Except.ok.inj h
    exact mem_of_each hbs ha
  | _ => cases h

section Records

variable {ρ α : Type} {slots : List (Slot ρ)} {es : List Entry} {r r' : ρ} {k : String}

/-- Storing the values of entries, one for each slot and in the same order, leads from one record
to another. -/
inductive Stores : List (Slot ρ) → List Entry → ρ → ρ → Prop
  | nil (r : ρ) : Stores [] [] r r
  | cons {slot : Slot ρ} {slots : List (Slot ρ)} {v : Outline} {es : List Entry} {r r' r'' : ρ}
      (first : slot.store v r = .ok r') (rest : Stores slots es r' r'') :
      Stores (slot :: slots) ((some slot.key, v) :: es) r r''

lemma Stores.required {key : String} {decode : Decoder α} {set : α → ρ → ρ} {v : Outline} {a : α}
    (h : decode v = .ok a) (rest : Stores slots es (set a r) r') :
    Stores (required key decode set :: slots) ((some key, v) :: es) r r' := by
  exact .cons (map_eq_ok_iff.mpr ⟨a, h, rfl⟩) rest

lemma Stores.defaulted {key : String} {decode : Decoder α} {set : α → ρ → ρ} {v : Outline} {a : α}
    (h : decode v = .ok a) (rest : Stores slots es (set a r) r') :
    Stores (defaulted key decode set :: slots) ((some key, v) :: es) r r' := by
  exact .cons (map_eq_ok_iff.mpr ⟨a, h, rfl⟩) rest

lemma find?_key {slot : Slot ρ} (hnodup : (slots.map (·.key)).Nodup) (hmem : slot ∈ slots) :
    slots.find? (·.key == slot.key) = some slot := by
  induction slots with
  | nil => exact absurd hmem List.not_mem_nil
  | cons first slots ih =>
    rw [List.map_cons, List.nodup_cons] at hnodup
    rcases List.mem_cons.mp hmem with rfl | hmem
    · exact List.find?_cons_of_pos (by simp)
    · have hne : first.key ≠ slot.key := by
        intro heq
        exact hnodup.1 (heq ▸ List.mem_map_of_mem hmem)
      rw [List.find?_cons_of_neg (by simpa using hne), ih hnodup.2 hmem]

/-- The entries of an object lead from one record to another: values are stored under the keys of
slots and skipped under other keys. -/
inductive Fills (slots : List (Slot ρ)) : List Entry → ρ → ρ → Prop
  | nil (r : ρ) : Fills slots [] r r
  | skip {k : String} {v : Outline} {es : List Entry} {r r' : ρ}
      (hkey : slots.find? (·.key == k) = none) (hskip : v.skipProblem? = none)
      (rest : Fills slots es r r') : Fills slots ((some k, v) :: es) r r'
  | store {k : String} {v : Outline} {slot : Slot ρ} {es : List Entry} {r r' r'' : ρ}
      (hkey : slots.find? (·.key == k) = some slot) (first : slot.store v r = .ok r')
      (rest : Fills slots es r' r'') : Fills slots ((some k, v) :: es) r r''

lemma fills_cons_iff_of_none (hkey : slots.find? (·.key == k) = none) {v : Outline} :
    Fills slots ((some k, v) :: es) r r' ↔ v.skipProblem? = none ∧ Fills slots es r r' := by
  constructor
  · intro h
    cases h with
    | skip _ hskip rest => exact ⟨hskip, rest⟩
    | store hkey' => cases hkey.symm.trans hkey'
  · rintro ⟨hskip, rest⟩
    exact .skip hkey hskip rest

lemma fills_cons_iff_of_some {slot : Slot ρ} (hkey : slots.find? (·.key == k) = some slot)
    {v : Outline} : Fills slots ((some k, v) :: es) r r' ↔
      ∃ r₁, slot.store v r = .ok r₁ ∧ Fills slots es r₁ r' := by
  constructor
  · intro h
    cases h with
    | skip hkey' => cases hkey.symm.trans hkey'
    | store hkey' first rest =>
      obtain rfl := Option.some.inj (hkey.symm.trans hkey')
      exact ⟨_, first, rest⟩
  · rintro ⟨r₁, first, rest⟩
    exact .store hkey first rest

/-- The keys under which values are stored. -/
def storedKeys (slots : List (Slot ρ)) (es : List Entry) : List String :=
  es.filterMap fun e => e.1.filter fun k => (slots.find? (·.key == k)).isSome

lemma storedKeys_append (es es' : List Entry) :
    storedKeys slots (es ++ es') = storedKeys slots es ++ storedKeys slots es' :=
  List.filterMap_append

lemma storedKeys_cons_of_none (hkey : slots.find? (·.key == k) = none) (v : Outline) :
    storedKeys slots ((some k, v) :: es) = storedKeys slots es :=
  List.filterMap_cons_none (by simpa using hkey)

lemma storedKeys_cons_of_some {slot : Slot ρ} (hkey : slots.find? (·.key == k) = some slot)
    (v : Outline) : storedKeys slots ((some k, v) :: es) = k :: storedKeys slots es :=
  List.filterMap_cons_some (by simp [hkey])

/-- Entries are stored if they lead to a record and no key is stored twice. -/
lemma storeEntries_eq_ok_iff {seen seen' : List String} (hseen : seen.Nodup) :
    storeEntries slots seen r es = .ok (seen', r') ↔
      Fills slots es r r' ∧ seen' = (storedKeys slots es).reverse ++ seen ∧ seen'.Nodup := by
  induction es generalizing seen r with
  | nil =>
    constructor
    · rintro ⟨⟩
      exact ⟨.nil _, rfl, hseen⟩
    · rintro ⟨⟨⟩, rfl, -⟩
      rfl
  | cons e es ih =>
    obtain ⟨_ | k, v⟩ := e
    · constructor
      · intro h
        cases h
      · rintro ⟨hfills, -⟩
        cases hfills
    rw [storeEntries]
    split
    · next hkey =>
      rw [storedKeys_cons_of_none hkey, fills_cons_iff_of_none hkey, bind_eq_ok_iff]
      constructor
      · rintro ⟨_, hskip, h⟩
        obtain ⟨hfills, hkeys⟩ := (ih hseen).mp h
        exact ⟨⟨check_eq_ok_iff.mp hskip, hfills⟩, hkeys⟩
      · rintro ⟨⟨hskip, hfills⟩, hkeys⟩
        exact ⟨(), check_eq_ok_iff.mpr hskip, (ih hseen).mpr ⟨hfills, hkeys⟩⟩
    · next slot hkey =>
      rw [storedKeys_cons_of_some hkey, fills_cons_iff_of_some hkey, List.reverse_cons,
        List.append_assoc, List.singleton_append]
      split
      · next hmem =>
        constructor
        · intro h
          cases h
        · rintro ⟨-, rfl, hnodup⟩
          have hfresh := (List.nodup_cons.mp (List.Nodup.of_append_right hnodup)).1
          exact absurd (List.contains_iff_mem.mp hmem) hfresh
      · next hmem =>
        have hfresh : (k :: seen).Nodup :=
          List.nodup_cons.mpr ⟨fun h => hmem (List.contains_iff_mem.mpr h), hseen⟩
        rw [bind_eq_ok_iff]
        constructor
        · rintro ⟨r₁, hr₁, h⟩
          obtain ⟨hfills, hkeys⟩ := (ih hfresh).mp h
          exact ⟨⟨r₁, hr₁, hfills⟩, hkeys⟩
        · rintro ⟨⟨r₁, hr₁, hfills⟩, hkeys⟩
          exact ⟨r₁, hr₁, (ih hfresh).mpr ⟨hfills, hkeys⟩⟩

/-- An object is read as the record that its entries lead to, if no key is stored twice and the
keys that must be there are. -/
theorem record_object_eq_ok_iff {surplus : Cause} :
    record surplus slots r (.object es none) = .ok r' ↔
      Fills slots es r r' ∧ (storedKeys slots es).Nodup ∧
        ∀ slot ∈ slots, slot.required = true → slot.key ∈ storedKeys slots es := by
  have hall (keys : List String) :
      (slots.all fun s => !s.required || keys.reverse.contains s.key) = true ↔
        ∀ slot ∈ slots, slot.required = true → slot.key ∈ keys := by
    simp [List.all_eq_true, or_iff_not_imp_left]
  constructor
  · intro h
    obtain ⟨⟨seen, r₁⟩, hr₁, h⟩ := bind_eq_ok_iff.mp h
    obtain ⟨hfills, rfl, hnodup⟩ := (storeEntries_eq_ok_iff List.nodup_nil).mp hr₁
    rw [List.append_nil] at h hnodup
    obtain ⟨-, -, h⟩ := bind_eq_ok_iff.mp h
    split at h
    · next hkeys =>
      obtain rfl := Except.ok.inj h
      exact ⟨hfills, List.nodup_reverse.mp hnodup, (hall _).mp hkeys⟩
    · cases h
  · rintro ⟨hfills, hnodup, hkeys⟩
    have hstored : storeEntries slots [] r es = .ok ((storedKeys slots es).reverse, r') :=
      (storeEntries_eq_ok_iff List.nodup_nil).mpr
        ⟨hfills, (List.append_nil _).symm, List.nodup_reverse.mpr hnodup⟩
    rw [record, hstored]
    simp only [bind, Except.bind, Option.map_none, check, (hall _).mpr hkeys, if_true]
    rfl

lemma Stores.fills {todo : List (Slot ρ)} (h : Stores todo es r r')
    (hnodup : (slots.map (·.key)).Nodup) (hsub : todo ⊆ slots) :
    Fills slots es r r' ∧ storedKeys slots es = todo.map (·.key) := by
  induction h with
  | nil r => exact ⟨.nil r, rfl⟩
  | @cons slot todo v es r r' r'' first _ ih =>
    obtain ⟨hslot, htodo⟩ := List.cons_subset.mp hsub
    obtain ⟨hfills, hkeys⟩ := ih htodo
    have hkey := find?_key hnodup hslot
    exact ⟨.store hkey first hfills, by rw [storedKeys_cons_of_some hkey, hkeys, List.map_cons]⟩

/-- An object whose entries are those of the slots, in their order, is read as the record that
storing them leads to. -/
theorem record_of_stores (surplus : Cause) (h : Stores slots es r r')
    (hnodup : (slots.map (·.key)).Nodup) : record surplus slots r (.object es none) = .ok r' := by
  obtain ⟨hfills, hkeys⟩ := h.fills hnodup (List.Subset.refl slots)
  refine record_object_eq_ok_iff.mpr ⟨hfills, by rwa [hkeys], ?_⟩
  intro slot hslot _
  rw [hkeys]
  exact List.mem_map_of_mem hslot

/-- The items of a record are read to their end. -/
lemma stop_of_storeItems {surplus : Cause} {stop : Option Break} {vs : List Outline}
    (h : storeItems surplus stop slots vs r = .ok r') : stop = none := by
  induction slots generalizing vs r with
  | nil =>
    cases vs with
    | nil =>
      obtain ⟨_, hstop, -⟩ := bind_eq_ok_iff.mp h
      exact check_stop_eq_ok_iff.mp hstop
    | cons v vs => cases h
  | cons slot slots ih =>
    cases vs with
    | nil =>
      obtain ⟨_, hstop, -⟩ := bind_eq_ok_iff.mp h
      exact check_stop_eq_ok_iff.mp hstop
    | cons v vs =>
      obtain ⟨r₁, -, h⟩ := bind_eq_ok_iff.mp h
      exact ih h

/-- Storing a value in a slot keeps a property of records. -/
def Slot.Keeps (P : ρ → Prop) (slot : Slot ρ) : Prop :=
  ∀ v r r', P r → slot.store v r = .ok r' → P r'

variable {P : ρ → Prop} {key : String} {decode : Decoder α} {set : α → ρ → ρ}

lemma keeps_required (h : ∀ v a r, decode v = .ok a → P r → P (set a r)) :
    (required key decode set).Keeps P := by
  intro v r r' hr hstore
  obtain ⟨a, ha, rfl⟩ := map_eq_ok_iff.mp hstore
  exact h v a r ha hr

lemma keeps_defaulted (h : ∀ v a r, decode v = .ok a → P r → P (set a r)) :
    (defaulted key decode set).Keeps P := by
  intro v r r' hr hstore
  obtain ⟨a, ha, rfl⟩ := map_eq_ok_iff.mp hstore
  exact h v a r ha hr

lemma Fills.keeps (hslots : ∀ slot ∈ slots, slot.Keeps P) (h : Fills slots es r r') (hr : P r) :
    P r' := by
  induction h with
  | nil => exact hr
  | skip _ _ _ ih => exact ih hr
  | store hkey first _ ih =>
    exact ih (hslots _ (List.mem_of_find?_eq_some hkey) _ _ _ hr first)

lemma storeItems_keeps {surplus : Cause} {stop : Option Break} {vs : List Outline}
    (hslots : ∀ slot ∈ slots, slot.Keeps P) (hr : P r)
    (h : storeItems surplus stop slots vs r = .ok r') : P r' := by
  induction slots generalizing vs r with
  | nil =>
    cases vs with
    | nil =>
      obtain ⟨-, -, h⟩ := bind_eq_ok_iff.mp h
      obtain rfl := Except.ok.inj h
      exact hr
    | cons v vs => cases h
  | cons slot slots ih =>
    obtain ⟨hslot, hslots⟩ := List.forall_mem_cons.mp hslots
    cases vs with
    | nil =>
      obtain ⟨-, -, h⟩ := bind_eq_ok_iff.mp h
      split at h
      · cases h
      · exact ih hslots hr h
    | cons v vs =>
      obtain ⟨r₁, hr₁, h⟩ := bind_eq_ok_iff.mp h
      exact ih hslots (hslot v r r₁ hr hr₁) h

/-- What holds of the defaults and is kept by every slot holds of every decoded record. -/
theorem record_keeps {surplus : Cause} (hslots : ∀ slot ∈ slots, slot.Keeps P) {initial : ρ}
    (hinitial : P initial) {v : Outline} (h : record surplus slots initial v = .ok r) : P r := by
  cases v with
  | array vs stop => exact storeItems_keeps hslots hinitial h
  | object es stop =>
    obtain ⟨x, -, hx⟩ := bind_eq_ok_iff.mp h
    obtain ⟨_, hstop, -⟩ := bind_eq_ok_iff.mp hx
    obtain rfl := check_stop_eq_ok_iff.mp hstop
    exact (record_object_eq_ok_iff.mp h).1.keeps hslots hinitial
  | _ => cases h

end Records

section Tags

variable {τ α : Type} {key : String} {tag : Decoder τ} {depth : Nat} {payload : τ → Decoder α}
  {t : Outline} {pre post es rest : List Entry} {found : Option τ} {a : α}

lemma splitTag_of_forall_ne {found : Option τ} {es : List (String × Json)}
    (hkey : ∀ e ∈ es, e.1 ≠ key) (hes : ∀ e ∈ es, (ofJson e.2).problem? depth = none) :
    splitTag key tag depth found (ofEntries es) = .ok (found, ofEntries es) := by
  induction es with
  | nil => rfl
  | cons e es ih =>
    obtain ⟨k, v⟩ := e
    obtain ⟨hk, hkey⟩ := List.forall_mem_cons.mp hkey
    obtain ⟨hv, hes⟩ := List.forall_mem_cons.mp hes
    rw [ofEntries, splitTag, if_neg hk, hv, ih hkey hes]
    rfl

/-- An object that begins with its kind is decoded as what else it says. -/
theorem tagged_ofJson {n : Nat} {t : τ} {v : Json} {es : List (String × Json)}
    (htag : tag (ofJson v) = .ok t) (hkey : ∀ e ∈ es, e.1 ≠ key)
    (hes : ∀ e ∈ es, IsPlain n e.2) (hroom : depth + 1 + n ≤ maxDepth) :
    tagged key tag depth payload (ofJson (.object ((key, v) :: es))) =
      payload t (ofJson (.object es)) := by
  have hproblem : ∀ e ∈ es, (ofJson e.2).problem? (depth + 1) = none := by
    intro e he
    exact (hes e he).problem?_ofJson hroom
  have hsplit : splitTag key tag (depth + 1) none (ofEntries ((key, v) :: es)) =
      .ok (some t, ofEntries es) := by
    rw [ofEntries, splitTag, if_pos rfl, htag]
    exact splitTag_of_forall_ne hkey hproblem
  rw [ofJson, ofJson, tagged, hsplit]
  rfl

/-- Entries that have been split leave the tag that was found to the entries after them. -/
lemma splitTag_append (found : Option τ) (es fs : List Entry) :
    splitTag key tag depth found (es ++ fs) =
      (splitTag key tag depth found es).bind fun x =>
        (splitTag key tag depth x.1 fs).map fun y => (y.1, x.2 ++ y.2) := by
  induction es generalizing found with
  | nil =>
    rw [List.nil_append, splitTag, Except.bind]
    cases splitTag key tag depth found fs <;> rfl
  | cons e es ih =>
    obtain ⟨_ | k, v⟩ := e
    · rfl
    rw [List.cons_append, splitTag, splitTag]
    split
    · split
      · rfl
      · cases tag v with
        | error c => rfl
        | ok t => exact ih (some t)
    · cases v.problem? depth with
      | some c => rfl
      | none =>
        simp only [check, bind, ih found]
        cases splitTag key tag depth found es with
        | error c => rfl
        | ok x =>
          simp only [Except.bind, pure, Except.pure]
          cases splitTag key tag depth x.1 fs <;> rfl

lemma splitTag_of_ne (h : ∀ e ∈ es, e.1 ≠ some key) :
    splitTag key tag depth found es =
      (check (problemInEntries? depth es)).map fun _ => (found, es) := by
  induction es with
  | nil => rfl
  | cons e es ih =>
    obtain ⟨hk, hes⟩ := List.forall_mem_cons.mp h
    obtain ⟨_ | k, v⟩ := e
    · rfl
    rw [splitTag, if_neg fun heq => hk (congrArg some heq), problemInEntries?, ih hes]
    cases v.problem? depth with
    | some c => rfl
    | none =>
      rw [Option.none_or]
      cases problemInEntries? depth es <;> rfl

/-- The key that tells the kind may stand anywhere. -/
lemma tagged_object_eq_ok_iff (h : ∀ e ∈ pre ++ post, e.1 ≠ some key) :
    tagged key tag depth payload (.object (pre ++ (some key, t) :: post) none) = .ok a ↔
      problemInEntries? (depth + 1) (pre ++ post) = none ∧
        ∃ kind, tag t = .ok kind ∧ payload kind (.object (pre ++ post) none) = .ok a := by
  obtain ⟨hpre, hpost⟩ := List.forall_mem_append.mp h
  rw [tagged, splitTag_append, splitTag_of_ne hpre, problemInEntries?_append]
  cases problemInEntries? (depth + 1) pre with
  | some c => simp [check, bind, Except.bind, Except.map]
  | none =>
    simp only [check, Except.map, Except.bind, splitTag, if_pos, Option.isSome_none]
    cases tag t with
    | error c => simp [bind, Except.bind]
    | ok kind =>
      simp only [bind, Except.bind, splitTag_of_ne hpost]
      cases problemInEntries? (depth + 1) post with
      | some c => simp [check, Except.map]
      | none => simp [check, Except.map]

lemma tagged_array_eq_ok_iff {vs : List Outline} :
    tagged key tag depth payload (.array (t :: vs) none) = .ok a ↔
      problemInItems? (depth + 1) vs = none ∧
        ∃ kind, tag t = .ok kind ∧ payload kind (.array vs none) = .ok a := by
  constructor
  · intro h
    obtain ⟨kind, hkind, h⟩ := bind_eq_ok_iff.mp h
    obtain ⟨_, hvs, h⟩ := bind_eq_ok_iff.mp h
    exact ⟨check_eq_ok_iff.mp hvs, kind, hkind, h⟩
  · rintro ⟨hvs, kind, hkind, h⟩
    rw [tagged, hkind, hvs]
    exact h

lemma ne_of_splitTag {kind : τ} {x : Option τ × List Entry}
    (h : splitTag key tag depth (some kind) es = .ok x) : ∀ e ∈ es, e.1 ≠ some key := by
  induction es generalizing x with
  | nil => exact List.forall_mem_nil _
  | cons e es ih =>
    obtain ⟨_ | k, v⟩ := e
    · cases h
    rw [splitTag] at h
    split at h
    · cases h
    · next hk =>
      obtain ⟨_, -, h⟩ := bind_eq_ok_iff.mp h
      obtain ⟨y, hy, -⟩ := bind_eq_ok_iff.mp h
      exact List.forall_mem_cons.mpr ⟨fun heq => hk (Option.some.inj heq), ih hy⟩

/-- Where a kind is found, its key stands once. -/
lemma exists_of_splitTag {kind : τ} (h : splitTag key tag depth none es = .ok (some kind, rest)) :
    ∃ pre t post, es = pre ++ (some key, t) :: post ∧ ∀ e ∈ pre ++ post, e.1 ≠ some key := by
  induction es generalizing rest with
  | nil => cases h
  | cons e es ih =>
    obtain ⟨_ | k, v⟩ := e
    · cases h
    rw [splitTag] at h
    split at h
    · next hk =>
      subst hk
      obtain ⟨t, -, h⟩ := bind_eq_ok_iff.mp h
      exact ⟨[], v, es, rfl, ne_of_splitTag h⟩
    · next hk =>
      obtain ⟨_, -, h⟩ := bind_eq_ok_iff.mp h
      obtain ⟨⟨found, rest'⟩, hsplit, h⟩ := bind_eq_ok_iff.mp h
      obtain ⟨rfl, -⟩ := Prod.mk.inj (Except.ok.inj h)
      obtain ⟨pre, t, post, rfl, hkeys⟩ := ih hsplit
      exact ⟨(some k, v) :: pre, t, post, rfl,
        List.forall_mem_cons.mpr ⟨fun heq => hk (Option.some.inj heq), hkeys⟩⟩

/-- A decoded value of one of several kinds is an object with the key of the kind or an array with
the kind in front. -/
lemma exists_of_tagged {v : Outline} (h : tagged key tag depth payload v = .ok a) :
    (∃ pre t post, v = .object (pre ++ (some key, t) :: post) none ∧
      ∀ e ∈ pre ++ post, e.1 ≠ some key) ∨ ∃ t vs, v = .array (t :: vs) none := by
  cases v with
  | object es stop =>
    obtain ⟨⟨found, rest⟩, hsplit, h⟩ := bind_eq_ok_iff.mp h
    obtain ⟨_, hstop, h⟩ := bind_eq_ok_iff.mp h
    obtain rfl := check_stop_eq_ok_iff.mp hstop
    cases found with
    | none => cases h
    | some kind =>
      obtain ⟨pre, t, post, rfl, hkeys⟩ := exists_of_splitTag hsplit
      exact .inl ⟨pre, t, post, rfl, hkeys⟩
  | array vs stop =>
    cases vs with
    | nil =>
      obtain ⟨-, -, h⟩ := bind_eq_ok_iff.mp h
      cases h
    | cons t vs =>
      obtain ⟨kind, -, h⟩ := bind_eq_ok_iff.mp h
      obtain ⟨_, -, h⟩ := bind_eq_ok_iff.mp h
      obtain ⟨_, hstop, -⟩ := bind_eq_ok_iff.mp h
      obtain rfl := check_stop_eq_ok_iff.mp hstop
      exact .inr ⟨t, vs, rfl⟩
  | _ => cases h

/-- A decoded value of one of several kinds is the payload of some kind. -/
theorem exists_payload_of_tagged {v : Outline} (h : tagged key tag depth payload v = .ok a) :
    ∃ kind u, payload kind u = .ok a := by
  rcases exists_of_tagged h with ⟨pre, t, post, rfl, hkeys⟩ | ⟨t, vs, rfl⟩
  · obtain ⟨-, kind, -, hpayload⟩ := (tagged_object_eq_ok_iff hkeys).mp h
    exact ⟨kind, _, hpayload⟩
  · obtain ⟨-, kind, -, hpayload⟩ := tagged_array_eq_ok_iff.mp h
    exact ⟨kind, _, hpayload⟩

end Tags

section Texts

variable {α : Type} {decode : Decoder α} {a : α}

lemma text_compact {n : Nat} {v : Json} (hv : IsPlain n v) (h : decode (ofJson v) = .ok a) :
    text decode (Glyph.ofString v.compact) = .ok a := by
  simp only [text, hv.ofTokens_compact, h]
  rfl

lemma exists_of_text {gs : List Glyph} (h : text decode gs = .ok a) : ∃ v, decode v = .ok a := by
  obtain ⟨b, hb, h⟩ := bind_eq_ok_iff.mp h
  split at h
  · obtain rfl := Except.ok.inj h
    exact ⟨_, hb⟩
  · cases h

end Texts

end SchemaClient.Json.Decode
