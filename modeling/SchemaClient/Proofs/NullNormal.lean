import Mathlib.Logic.Relation
import SchemaClient.Proofs.TypeExpr

/-!
# Where the type of a type expression admits null

The type of a type expression is made of names, keywords and arrays, and `null` stands in it only
as the second of two alternatives. Wrappers that admit `null` or do nothing come to one such pair,
however many of them are stacked.
-/

namespace SchemaClient.Code.Ty

def isNull : Ty → Bool
  | .prim p => p == .null
  | _ => false

mutual

/-- The types that a value of the type may have, in the order in which they are written. -/
def alternatives : Ty → List Ty
  | .union ts => alternativesOfAll ts
  | t => [t]

def alternativesOfAll : List Ty → List Ty
  | [] => []
  | t :: ts => t.alternatives ++ alternativesOfAll ts

end

/-- The types that stand directly in a type. -/
def parts : Ty → List Ty
  | .array t => [t]
  | .union ts => ts
  | .object ms => ms.map Member.type
  | _ => []

/-- A type stands somewhere in another one, which itself is such a place. -/
def Within : Ty → Ty → Prop :=
  Relation.ReflTransGen fun s t => s ∈ t.parts

/-- `null` is admitted in pairs with one other type, and unions serve nothing else. -/
structure IsNullNormal (t : Ty) : Prop where
  union : ∀ ts, Within (.union ts) t →
    ∃ s, ts = [s, .prim .null] ∧ s.isUnion = false ∧ s ≠ .prim .null
  null : t ≠ .prim .null ∧ ∀ s, Within s t → .prim .null ∈ s.parts → s.isUnion = true
  never : ¬Within (.prim .never) t
  literal : ∀ text, ¬Within (.literal text) t
  object : ∀ members, ¬Within (.object members) t

lemma within_iff {s t : Ty} : Within s t ↔ s = t ∨ ∃ u ∈ t.parts, Within s u := by
  rw [Within, Relation.ReflTransGen.cases_tail_iff]
  constructor
  · rintro (rfl | ⟨u, hsu, hut⟩)
    · exact .inl rfl
    · exact .inr ⟨u, hut, hsu⟩
  · rintro (rfl | ⟨u, hut, hsu⟩)
    · exact .inl rfl
    · exact .inr ⟨u, hsu, hut⟩

lemma isNullable_nullable (t : Ty) : t.nullable.isNullable = true := by
  by_cases h : t.isNullable = true
  · rw [nullable_of_isNullable h, h]
  · unfold nullable
    rw [if_neg h]
    cases t <;> simp [isNullable, anyNullable_eq_any]

lemma nullable_nullable (t : Ty) : t.nullable.nullable = t.nullable :=
  nullable_of_isNullable t.isNullable_nullable

/-- The types that names, keywords and arrays make, with `null` beside any of them; `admits` says
whether it is admitted at the top. -/
inductive Formed : (admits : Bool) → Ty → Prop
  | prim {p : Primitive} (hnull : p ≠ .null) (hnever : p ≠ .never) : Formed false (.prim p)
  | ref (name : String) : Formed false (.ref name)
  | array {admits : Bool} {t : Ty} (h : Formed admits t) : Formed false (.array t)
  | pair {t : Ty} (h : Formed false t) : Formed true (.union [t, .prim .null])

namespace Formed

variable {admits : Bool} {t : Ty}

lemma isNullable_eq (h : Formed admits t) : t.isNullable = admits := by
  cases h with
  | prim hnull _ => simpa [isNullable] using hnull
  | ref _ => rfl
  | array _ => rfl
  | pair _ => simp [isNullable, anyNullable_eq_any]

lemma nullable (h : Formed admits t) : Formed true t.nullable := by
  have hadmits := h.isNullable_eq
  cases h with
  | pair h =>
    rw [nullable_of_isNullable hadmits]
    exact .pair h
  | prim hnull hnever => simpa [Ty.nullable, hadmits] using (prim hnull hnever).pair
  | ref name => exact (ref name).pair
  | array h => exact h.array.pair

lemma isUnion_eq (h : Formed admits t) : t.isUnion = admits := by
  cases h <;> rfl

lemma ne_null (h : Formed admits t) : t ≠ .prim .null := by
  rintro rfl
  cases h with
  | prim hnull _ => exact hnull rfl

/-- What stands in such a type is formed in the same way, but for the `null` of a pair. -/
lemma of_within {s : Ty} (h : Formed admits t) (hs : Within s t) (hne : s ≠ .prim .null) :
    ∃ admits, Formed admits s := by
  induction h with
  | prim hnull hnever =>
    rcases within_iff.mp hs with rfl | ⟨u, hu, -⟩
    · exact ⟨_, .prim hnull hnever⟩
    · cases hu
  | ref name =>
    rcases within_iff.mp hs with rfl | ⟨u, hu, -⟩
    · exact ⟨_, .ref name⟩
    · cases hu
  | array h ih =>
    rcases within_iff.mp hs with rfl | ⟨u, hu, hsu⟩
    · exact ⟨_, .array h⟩
    · obtain rfl := List.mem_singleton.mp hu
      exact ih hsu
  | pair h ih =>
    rcases within_iff.mp hs with rfl | ⟨u, hu, hsu⟩
    · exact ⟨_, .pair h⟩
    -- The second alternative is `null`, and nothing else stands in it.
    · rcases List.mem_pair.mp hu with rfl | rfl
      · exact ih hsu
      · rcases within_iff.mp hsu with rfl | ⟨v, hv, -⟩
        · exact absurd rfl hne
        · cases hv

lemma countP_alternatives (h : Formed admits t) :
    t.alternatives.countP isNull = if admits then 1 else 0 := by
  induction h with
  | prim hnull _ => simpa [alternatives, isNull] using hnull
  | ref _ => rfl
  | array _ _ => rfl
  | pair _ ih =>
    simp only [alternatives, alternativesOfAll, List.countP_append, ih]
    rfl

lemma isNullNormal (h : Formed admits t) : t.IsNullNormal where
  union ts hts := by
    obtain ⟨_, hform⟩ := h.of_within hts nofun
    cases hform with
    | pair hs => exact ⟨_, rfl, hs.isUnion_eq, hs.ne_null⟩
  null := by
    refine ⟨h.ne_null, fun s hs hmem => ?_⟩
    have hne : s ≠ .prim .null := by
      rintro rfl
      cases hmem
    obtain ⟨_, hform⟩ := h.of_within hs hne
    cases hform with
    | prim _ _ => cases hmem
    | ref _ => cases hmem
    | array ht => exact absurd (List.mem_singleton.mp hmem).symm ht.ne_null
    | pair _ => rfl
  never hs := by
    obtain ⟨_, hform⟩ := h.of_within hs nofun
    cases hform with
    | prim _ hnever => exact hnever rfl
  literal text hs := by
    obtain ⟨_, hform⟩ := h.of_within hs nofun
    cases hform
  object members hs := by
    obtain ⟨_, hform⟩ := h.of_within hs nofun
    cases hform

end Formed
end SchemaClient.Code.Ty

namespace SchemaClient.Schema.TypeExpr
open SchemaClient.Code

lemma formed_primitive {name : String} {p : Primitive} (h : primitive? name = some p) :
    Ty.Formed false (.prim p) := by
  unfold primitive? at h
  split_ifs at h
  all_goals
    obtain rfl := Option.some.inj h
    exact .prim (by decide) (by decide)

lemma Term.exists_formed (t : Term) : ∃ admits, Ty.Formed admits t.meaning := by
  induction t with
  | leaf text =>
    refine ⟨false, ?_⟩
    rw [meaning]
    cases h : primitive? text with
    | none => exact .ref text
    | some p => exact formed_primitive h
  | wrap w inner ih =>
    obtain ⟨admits, hinner⟩ := ih
    cases w with
    | nullable => exact ⟨true, hinner.nullable⟩
    | transparent => exact ⟨admits, hinner⟩
    | array => exact ⟨false, .array hinner⟩

lemma exists_formed (e : String) : ∃ admits, Ty.Formed admits (typeOf e) := by
  obtain ⟨t, ht, rfl⟩ := Term.exists_render e
  rw [typeOf_render ht]
  exact t.exists_formed

/-- The text with wrappers around it, the first of them outermost. -/
def wrapped (ws : List Wrapper) (e : String) : String :=
  ws.foldr (fun w inner => w.name ++ "<" ++ inner ++ ">") e

section Wrapped

variable {e : String} (hne : e ≠ "") (hb : Balanced e.toList)
include hne hb

lemma wrapped_inner (ws : List Wrapper) :
    wrapped ws e ≠ "" ∧ Balanced (wrapped ws e).toList := by
  induction ws with
  | nil => exact ⟨hne, hb⟩
  | cons w ws ih =>
    have htext : (wrapped (w :: ws) e).toList = enclose w.name (wrapped ws e).toList := by
      simp [wrapped, enclose]
    refine ⟨by simp [wrapped], ?_⟩
    rw [htext]
    exact Term.balanced_enclose w ih.2

lemma typeOf_wrapped {ws : List Wrapper} (hws : .array ∉ ws) :
    typeOf (wrapped ws e) = if .nullable ∈ ws then (typeOf e).nullable else typeOf e := by
  induction ws with
  | nil => rfl
  | cons w ws ih =>
    obtain ⟨hw, hrest⟩ := not_or.mp (List.mem_cons.not.mp hws)
    obtain ⟨hne', hb'⟩ := wrapped_inner hne hb ws
    have hstep : typeOf (wrapped (w :: ws) e) = w.apply (typeOf (wrapped ws e)) :=
      typeOf_wrap w hne' hb'
    rw [hstep, ih hrest]
    cases w with
    | nullable =>
      rw [if_pos List.mem_cons_self, Wrapper.apply]
      split
      · exact Ty.nullable_nullable _
      · rfl
    | transparent => simp [Wrapper.apply]
    | array => exact absurd rfl hw

end Wrapped

/-- The type of a text admits `null` only beside one other type, so at most once in each place, and
it is admitted around a text if any of the wrappers there admits it. -/
theorem isNullNormal_typeOf (e : String) :
    (typeOf e).IsNullNormal ∧
      (∀ t, Ty.Within t (typeOf e) → t.alternatives.countP Ty.isNull ≤ 1) ∧
      (e ≠ "" → Balanced e.toList → ∀ ws : List Wrapper, .array ∉ ws →
        typeOf (wrapped ws e) =
          if .nullable ∈ ws then (typeOf e).nullable else typeOf e) := by
  obtain ⟨admits, hform⟩ := exists_formed e
  refine ⟨hform.isNullNormal, ?_, fun hne hb ws hws => typeOf_wrapped hne hb hws⟩
  intro t ht
  by_cases hnull : t = .prim .null
  · subst hnull
    exact Nat.le_refl 1
  · obtain ⟨inner, hinner⟩ := hform.of_within ht hnull
    rw [hinner.countP_alternatives]
    split <;> omega

theorem isNullNormal_typeOf_stackedWrappers :
    let e := "Vec<Option<u8>>"
    let ws : List Wrapper := [.transparent, .nullable, .transparent, .nullable]
    e ≠ "" ∧ Balanced e.toList ∧ .array ∉ ws ∧
      wrapped ws e = "Box<Option<Box<Option<Vec<Option<u8>>>>>>" ∧
      typeOf (wrapped ws e) =
        .union [.array (.union [.prim .number, .prim .null]), .prim .null] := by
  intro e ws
  have hne : e ≠ "" := by decide
  have hb : Balanced e.toList := balanced_iff.mp (by decide)
  have hws : .array ∉ ws := by decide
  have htype := (isNullNormal_typeOf e).2.2 hne hb ws hws
  have hleaf : typeOf "u8" = .prim .number := by
    rw [typeOf, typeOfChars]
    rfl
  have hoption : typeOf "Option<u8>" = .union [.prim .number, .prim .null] := by
    have h := @typeOf_wrap .nullable "u8" (by decide) (balanced_iff.mp (by decide))
    rw [hleaf] at h
    exact h
  have hinner : typeOf e = .array (.union [.prim .number, .prim .null]) := by
    have h := @typeOf_wrap .array "Option<u8>" (by decide) (balanced_iff.mp (by decide))
    rw [hoption] at h
    exact h
  refine ⟨hne, hb, hws, rfl, ?_⟩
  rw [htype, hinner]
  rfl

end SchemaClient.Schema.TypeExpr
