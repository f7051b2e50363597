import SchemaClient.Json.Outline
import SchemaClient.Proofs.JsonText

/-!
# Reading the tokens of JSON

The tokens of a JSON value are read as the outline of that value, whatever stands around it, and
the value is told by its outline.
-/

namespace SchemaClient.Json
open SchemaClient.Text

namespace Outline

mutual

/-- The outline of a complete value. -/
def ofJson : Json → Outline
  | .null => .null
  | .bool b => .bool b
  | .number n => .number (some n)
  | .string s => .string (some s)
  | .array vs => .array (ofItems vs) none
  | .object es => .object (ofEntries es) none

/-- The outlines of complete values. -/
def ofItems : List Json → List Outline
  | [] => []
  | v :: vs => ofJson v :: ofItems vs

/-- The outlines of the entries of a complete object. -/
def ofEntries : List (String × Json) → List Entry
  | [] => []
  | (k, v) :: es => (some k, ofJson v) :: ofEntries es

end

/-- What reading gives once a value is complete: the value is put into the innermost frame. -/
def settle (v : Outline) (st : List Frame) (ts : List Token) : Outline × List Token :=
  match place v st with
  | some st => read st .separator ts
  | none => (v, ts)

/-- A value may stand here. -/
def Expected.IsStart (e : Expected) : Prop :=
  e = .value ∨ e = .item

lemma read_leaf {t : Token} {v : Outline} (ht : ofToken? t = some v) {e : Expected}
    (he : e.IsStart) (st : List Frame) (ts : List Token) :
    read st e (t :: ts) = settle v st ts := by
  rw [read, settle]
  cases hplace : place v st <;>
    rcases he with rfl | rfl <;> cases t <;> simp_all [step, ofToken?]

lemma read_openArray {e : Expected} (he : e.IsStart) (st : List Frame) (ts : List Token) :
    read st e (.opening .square :: ts) = read (.array [] :: st) .item ts := by
  rcases he with rfl | rfl <;> rfl

lemma read_openObject {e : Expected} (he : e.IsStart) (st : List Frame) (ts : List Token) :
    read st e (.opening .curly :: ts) = read (.object [] :: st) .member ts := by
  rcases he with rfl | rfl <;> rfl

lemma read_close {b : Bracket} {st outer : List Frame} {v : Outline}
    (hclose : close? b st = some (v, outer)) {e : Expected}
    (he : e = .item ∨ e = .member ∨ e = .separator) (ts : List Token) :
    read st e (.closing b :: ts) = settle v outer ts := by
  rw [read, settle]
  cases hplace : place v outer <;> rcases he with rfl | rfl | rfl <;> simp [step, hclose, hplace]

/-- Reading the tokens of a value where one may stand gives its outline and goes on behind it. -/
def ReadsBack (v : Json) : Prop :=
  ∀ (st : List Frame) (e : Expected) (ts : List Token), e.IsStart →
    read st e (tokens v ++ ts) = settle (ofJson v) st ts

lemma read_itemTokens {vs : List Json} (h : ∀ v ∈ vs, ReadsBack v) (acc : List Outline)
    (st : List Frame) (ts : List Token) :
    read (.array acc :: st) .separator (itemTokens vs ++ ts) =
      read (.array ((ofItems vs).reverse ++ acc) :: st) .separator ts := by
  induction vs generalizing acc with
  | nil => rfl
  | cons v vs ih =>
    obtain ⟨hv, hvs⟩ := List.forall_mem_cons.mp h
    calc read (.array acc :: st) .separator (itemTokens (v :: vs) ++ ts)
        = read (.array acc :: st) .value (tokens v ++ (itemTokens vs ++ ts)) := by
          rw [itemTokens, List.cons_append, List.append_assoc]
          rfl
      _ = read (.array (ofJson v :: acc) :: st) .separator (itemTokens vs ++ ts) :=
          hv (.array acc :: st) .value _ (.inl rfl)
      _ = read (.array ((ofItems vs).reverse ++ ofJson v :: acc) :: st) .separator ts := ih hvs _
      _ = read (.array ((ofItems (v :: vs)).reverse ++ acc) :: st) .separator ts := by
          simp [ofItems]

lemma readsBack_array {vs : List Json} (h : ∀ v ∈ vs, ReadsBack v) : ReadsBack (.array vs) := by
  intro st e ts he
  have hend (acc : List Outline) {e' : Expected}
      (he' : e' = .item ∨ e' = .member ∨ e' = .separator) :
      read (.array acc :: st) e' (.closing .square :: ts) =
        settle (.array acc.reverse none) st ts := read_close rfl he' ts
  cases vs with
  | nil =>
    rw [tokens, List.cons_append, read_openArray he]
    exact hend [] (by simp)
  | cons v vs =>
    obtain ⟨hv, hvs⟩ := List.forall_mem_cons.mp h
    calc read st e (tokens (.array (v :: vs)) ++ ts)
        = read (.array [] :: st) .item
            (tokens v ++ (itemTokens vs ++ .closing .square :: ts)) := by
          rw [← read_openArray he]
          simp [tokens]
      _ = read (.array [ofJson v] :: st) .separator (itemTokens vs ++ .closing .square :: ts) :=
          hv (.array [] :: st) .item _ (.inr rfl)
      _ = settle (.array ((ofItems vs).reverse ++ [ofJson v]).reverse none) st ts := by
          rw [read_itemTokens hvs, hend _ (by simp)]
      _ = settle (ofJson (.array (v :: vs))) st ts := by simp [ofJson, ofItems]

lemma read_key {e : Expected} (he : e = .member ∨ e = .key) (acc : List Entry) (st : List Frame)
    (k : String) (ts : List Token) :
    read (.object acc :: st) e (.string (some k) :: .colon :: ts) =
      read (.entry acc (some k) :: st) .value ts := by
  rcases he with rfl | rfl <;> rfl

lemma read_entryTokens {es : List (String × Json)} (h : ∀ e ∈ es, ReadsBack e.2)
    (acc : List Entry) (st : List Frame) (ts : List Token) :
    read (.object acc :: st) .separator (entryTokens es ++ ts) =
      read (.object ((ofEntries es).reverse ++ acc) :: st) .separator ts := by
  induction es generalizing acc with
  | nil => rfl
  | cons e es ih =>
    obtain ⟨k, v⟩ := e
    obtain ⟨hv, hes⟩ := List.forall_mem_cons.mp h
    calc read (.object acc :: st) .separator (entryTokens ((k, v) :: es) ++ ts)
        = read (.entry acc (some k) :: st) .value (tokens v ++ (entryTokens es ++ ts)) := by
          rw [← read_key (.inr rfl), ← List.append_assoc]
          rfl
      _ = read (.object ((some k, ofJson v) :: acc) :: st) .separator (entryTokens es ++ ts) :=
          hv (.entry acc (some k) :: st) .value _ (.inl rfl)
      _ = read (.object ((ofEntries es).reverse ++ (some k, ofJson v) :: acc) :: st) .separator
            ts := ih hes _
      _ = read (.object ((ofEntries ((k, v) :: es)).reverse ++ acc) :: st) .separator ts := by
          simp [ofEntries]

lemma readsBack_object {es : List (String × Json)} (h : ∀ e ∈ es, ReadsBack e.2) :
    ReadsBack (.object es) := by
  intro st e ts he
  have hend (acc : List Entry) {e' : Expected}
      (he' : e' = .item ∨ e' = .member ∨ e' = .separator) :
      read (.object acc :: st) e' (.closing .curly :: ts) =
        settle (.object acc.reverse none) st ts := read_close rfl he' ts
  cases es with
  | nil =>
    rw [tokens, List.cons_append, read_openObject he]
    exact hend [] (by simp)
  | cons p es =>
    obtain ⟨k, v⟩ := p
    obtain ⟨hv, hes⟩ := List.forall_mem_cons.mp h
    calc read st e (tokens (.object ((k, v) :: es)) ++ ts)
        = read (.entry [] (some k) :: st) .value
            (tokens v ++ (entryTokens es ++ .closing .curly :: ts)) := by
          rw [← read_key (.inl rfl), ← read_openObject he]
          simp [tokens]
      _ = read (.object [(some k, ofJson v)] :: st) .separator
            (entryTokens es ++ .closing .curly :: ts) :=
          hv (.entry [] (some k) :: st) .value _ (.inl rfl)
      _ = settle (.object ((ofEntries es).reverse ++ [(some k, ofJson v)]).reverse none) st ts := by
          rw [read_entryTokens hes, hend _ (by simp)]
      _ = settle (ofJson (.object ((k, v) :: es))) st ts := by simp [ofJson, ofEntries]

theorem readsBack (v : Json) : ReadsBack v := by
  induction v using induction_parts with
  | array vs ih => exact readsBack_array ih
  | object es ih => exact readsBack_object ih
  | _ => exact fun st e ts he => read_leaf rfl he st ts

/-- The tokens of a value are read as its outline, with nothing behind it. -/
theorem ofTokens_tokens (v : Json) : ofTokens (tokens v) = (ofJson v, []) := by
  have hread := readsBack v [] .value [] (.inl rfl)
  rwa [List.append_nil] at hread

lemma itemValues?_ofItems {vs : List Json} (h : ∀ v ∈ vs, (ofJson v).value? = some v) :
    itemValues? (ofItems vs) = some vs := by
  induction vs with
  | nil => rfl
  | cons v vs ih =>
    obtain ⟨hv, hvs⟩ := List.forall_mem_cons.mp h
    simp [ofItems, itemValues?, hv, ih hvs]

lemma entryValues?_ofEntries {es : List (String × Json)}
    (h : ∀ e ∈ es, (ofJson e.2).value? = some e.2) : entryValues? (ofEntries es) = some es := by
  induction es with
  | nil => rfl
  | cons e es ih =>
    obtain ⟨he, hes⟩ := List.forall_mem_cons.mp h
    simp [ofEntries, entryValues?, he, ih hes]

lemma value?_ofJson (v : Json) : (ofJson v).value? = some v := by
  induction v using induction_parts with
  | array vs ih => rw [ofJson, value?, itemValues?_ofItems ih, Option.map_some]
  | object es ih => rw [ofJson, value?, entryValues?_ofEntries ih, Option.map_some]
  | _ => rfl

lemma problemInItems?_ofItems {depth : Nat} {vs : List Json}
    (h : ∀ v ∈ vs, (ofJson v).problem? depth = none) :
    problemInItems? depth (ofItems vs) = none := by
  induction vs with
  | nil => rfl
  | cons v vs ih =>
    obtain ⟨hv, hvs⟩ := List.forall_mem_cons.mp h
    rw [ofItems, problemInItems?, hv, Option.none_or, ih hvs]

lemma problemInEntries?_ofEntries {depth : Nat} {es : List (String × Json)}
    (h : ∀ e ∈ es, (ofJson e.2).problem? depth = none) :
    problemInEntries? depth (ofEntries es) = none := by
  induction es with
  | nil => rfl
  | cons e es ih =>
    obtain ⟨he, hes⟩ := List.forall_mem_cons.mp h
    rw [ofEntries, problemInEntries?, he, Option.none_or, ih hes]

end Outline

/-- A value without numbers whose arrays and objects are nested at most `n` deep. -/
inductive IsPlain : Nat → Json → Prop
  | null (n : Nat) : IsPlain n .null
  | bool (n : Nat) (b : Bool) : IsPlain n (.bool b)
  | string (n : Nat) (s : String) : IsPlain n (.string s)
  | array {n : Nat} {vs : List Json} (items : ∀ v ∈ vs, IsPlain n v) : IsPlain (n + 1) (.array vs)
  | object {n : Nat} {es : List (String × Json)} (entries : ∀ e ∈ es, IsPlain n e.2) :
      IsPlain (n + 1) (.object es)

lemma isPlain_array_iff {n : Nat} {vs : List Json} :
    IsPlain (n + 1) (.array vs) ↔ ∀ v ∈ vs, IsPlain n v := by
  constructor
  · intro h
    cases h with
    | array items => exact items
  · exact .array

lemma isPlain_object_iff {n : Nat} {es : List (String × Json)} :
    IsPlain (n + 1) (.object es) ↔ ∀ e ∈ es, IsPlain n e.2 := by
  constructor
  · intro h
    cases h with
    | object entries => exact entries
  · exact .object

namespace IsPlain

lemma optional (n : Nat) (s : Option String) : IsPlain n (.optional s) := by
  cases s with
  | none => exact .null n
  | some s => exact .string n s

/-- The numbers of a plain value are whole numbers of 64 bits: there are none. -/
lemma isIntegral {n : Nat} {v : Json} (h : IsPlain n v) : v.IsIntegral := by
  induction h with
  | null => exact .null
  | bool n b => exact .bool b
  | string n s => exact .string trivial
  | array _ ih => exact .array ih
  | object _ ih => exact .object (fun _ _ => trivial) ih

/-- The compact text of a plain value is read as its outline, with nothing behind it. -/
theorem ofTokens_compact {n : Nat} {v : Json} (h : IsPlain n v) :
    Outline.ofTokens (Token.ofGlyphs (Glyph.ofString v.compact)) = (Outline.ofJson v, []) := by
  rw [Glyph.ofString, (spells_texts h.isIntegral).ofGlyphs_eq.2, Outline.ofTokens_tokens]

/-- A plain value has no problem where there is room for its nesting. -/
theorem problem?_ofJson {n : Nat} {v : Json} (h : IsPlain n v) {depth : Nat}
    (hroom : depth + n ≤ Outline.maxDepth) : (Outline.ofJson v).problem? depth = none := by
  induction h generalizing depth with
  | null => rfl
  | bool => rfl
  | string => rfl
  | @array n vs _ ih =>
    have hitems := Outline.problemInItems?_ofItems fun v hv =>
      ih v hv (show depth + 1 + n ≤ Outline.maxDepth by omega)
    rw [Outline.ofJson, Outline.problem?, if_neg (by omega), hitems]
    rfl
  | @object n es _ ih =>
    have hentries := Outline.problemInEntries?_ofEntries fun e he =>
      ih e he (show depth + 1 + n ≤ Outline.maxDepth by omega)
    rw [Outline.ofJson, Outline.problem?, if_neg (by omega), hentries]
    rfl

end IsPlain

end SchemaClient.Json
