import Mathlib.Data.List.Basic
import Mathlib.Tactic.Lemma
import SchemaClient.Json.Value

/-!
# The parts of JSON values

What is asked of the keys, strings and numbers of a value is asked of them at all depths, and still
holds when the entries of objects are sorted.
-/

namespace SchemaClient.Json

/-- What a value takes over from its parts holds of every value. -/
@[elab_as_elim]
theorem induction_parts {motive : Json → Prop} (null : motive .null) (bool : ∀ b, motive (.bool b))
    (number : ∀ n, motive (.number n)) (string : ∀ s, motive (.string s))
    (array : ∀ vs, (∀ v ∈ vs, motive v) → motive (.array vs))
    (object : ∀ es, (∀ e ∈ es, motive e.2) → motive (.object es)) (v : Json) : motive v := by
  refine @Json.rec motive (fun vs => ∀ v ∈ vs, motive v) (fun es => ∀ e ∈ es, motive e.2)
    (fun e => motive e.2) null bool number string array object ?_ ?_ ?_ ?_ ?_ v
  · exact List.forall_mem_nil _
  · exact fun v vs hv hvs => List.forall_mem_cons.mpr ⟨hv, hvs⟩
  · exact List.forall_mem_nil _
  · exact fun e es he hes => List.forall_mem_cons.mpr ⟨he, hes⟩
  · exact fun k v hv => hv

/-- Every key, every string and every number of the value is as is asked of it. -/
inductive Every (key string : String → Prop) (number : Number → Prop) : Json → Prop
  | null : Every key string number .null
  | bool (b : Bool) : Every key string number (.bool b)
  | number {n : Number} (h : number n) : Every key string number (.number n)
  | string {s : String} (h : string s) : Every key string number (.string s)
  | array {vs : List Json} (items : ∀ v ∈ vs, Every key string number v) :
      Every key string number (.array vs)
  | object {es : List (String × Json)} (keys : ∀ e ∈ es, key e.1)
      (values : ∀ e ∈ es, Every key string number e.2) : Every key string number (.object es)

lemma mem_putSorted {key : String} {v : Json} {e : String × Json} {es : List (String × Json)}
    (h : e ∈ putSorted key v es) : e = (key, v) ∨ e ∈ es := by
  induction es with
  | nil => exact .inl (List.mem_singleton.mp h)
  | cons f es ih =>
    rw [putSorted] at h
    split_ifs at h
    · exact List.mem_cons.mp h
    · exact (List.mem_cons.mp h).imp_right (List.mem_cons_of_mem f)
    · rcases List.mem_cons.mp h with rfl | hlater
      · exact .inr List.mem_cons_self
      · exact (ih hlater).imp_right (List.mem_cons_of_mem f)

lemma mem_sortedEntries {e : String × Json} {acc es : List (String × Json)}
    (h : e ∈ sortedEntries acc es) : e ∈ acc ∨ ∃ f ∈ es, e = (f.1, f.2.sorted) := by
  induction es generalizing acc with
  | nil => exact .inl h
  | cons f es ih =>
    rcases ih h with hacc | ⟨g, hg, rfl⟩
    · rcases mem_putSorted hacc with rfl | hacc
      · exact .inr ⟨f, List.mem_cons_self, rfl⟩
      · exact .inl hacc
    · exact .inr ⟨g, List.mem_cons_of_mem f hg, rfl⟩

lemma putSorted_ne_nil (key : String) (v : Json) (es : List (String × Json)) :
    putSorted key v es ≠ [] := by
  cases es with
  | nil => exact List.cons_ne_nil _ _
  | cons e es =>
    rw [putSorted]
    split_ifs <;> exact List.cons_ne_nil _ _

lemma sortedEntries_ne_nil {acc : List (String × Json)} (h : acc ≠ [])
    (es : List (String × Json)) : sortedEntries acc es ≠ [] := by
  induction es generalizing acc with
  | nil => exact h
  | cons e es ih => exact ih (putSorted_ne_nil e.1 e.2.sorted acc)

lemma sortedItems_eq_map (vs : List Json) : sortedItems vs = vs.map sorted := by
  induction vs with
  | nil => rfl
  | cons v vs ih => rw [sortedItems, ih, List.map_cons]

/-- What is asked of the parts of a value holds when its entries are sorted. -/
theorem Every.sorted {key string : String → Prop} {number : Number → Prop} {v : Json}
    (h : v.Every key string number) : v.sorted.Every key string number := by
  induction h with
  | null => exact .null
  | bool b => exact .bool b
  | number h => exact .number h
  | string h => exact .string h
  | array _ ih =>
    rw [Json.sorted, sortedItems_eq_map]
    exact .array (List.forall_mem_map.mpr ih)
  | object keys _ ih =>
    refine .object (fun e he => ?_) fun e he => ?_ <;>
      obtain hnil | ⟨f, hf, rfl⟩ := mem_sortedEntries he
    · cases hnil
    · exact keys f hf
    · cases hnil
    · exact ih f hf

end SchemaClient.Json
