import Mathlib.Data.List.Infix
import SchemaClient.Proofs.TypeExpr

/-!
# The depth of angle brackets

One pass that counts the open brackets decides whether the brackets of a text match. Behind every
beginning of a text the count is the number of its opening brackets less that of its closing ones.
Where that would be negative the pass has stopped, so it never counts below zero.
-/

namespace SchemaClient.Schema.TypeExpr

/-- With `depth` brackets open in front of the text, each bracket that it closes is open. -/
def ClosesOpen (depth : Nat) (cs : List Char) : Prop :=
  ∀ front, front <+: cs → front.count '>' ≤ depth + front.count '<'

section Step

variable {depth : Nat} {c : Char} {cs : List Char}

lemma closesOpen_nil : ClosesOpen depth [] := by
  intro front hfront
  rw [List.prefix_nil.mp hfront]
  exact Nat.zero_le _

lemma closesOpen_cons : ClosesOpen depth (c :: cs) ↔
    ∀ front, front <+: cs → (c :: front).count '>' ≤ depth + (c :: front).count '<' := by
  constructor
  · intro h front hfront
    exact h _ (List.cons_prefix_cons.mpr ⟨rfl, hfront⟩)
  · intro h front hfront
    rcases List.prefix_cons_iff.mp hfront with rfl | ⟨rest, rfl, hrest⟩
    · exact Nat.zero_le _
    · exact h rest hrest

lemma closesOpen_opening : ClosesOpen depth ('<' :: cs) ↔ ClosesOpen (depth + 1) cs := by
  rw [closesOpen_cons]
  refine forall₂_congr fun front _ => ?_
  rw [List.count_cons_of_ne (by decide), List.count_cons_self]
  omega

lemma closesOpen_closing :
    ClosesOpen depth ('>' :: cs) ↔ 0 < depth ∧ ClosesOpen (depth - 1) cs := by
  rw [closesOpen_cons]
  simp only [List.count_cons_self, List.count_cons_of_ne (show '>' ≠ '<' by decide)]
  constructor
  · intro h
    have hpos := h [] List.nil_prefix
    rw [List.count_nil, List.count_nil] at hpos
    refine ⟨by omega, fun front hfront => ?_⟩
    have hcount := h front hfront
    omega
  · rintro ⟨hpos, h⟩ front hfront
    have hcount := h front hfront
    omega

lemma closesOpen_plain (hopening : c ≠ '<') (hclosing : c ≠ '>') :
    ClosesOpen depth (c :: cs) ↔ ClosesOpen depth cs := by
  rw [closesOpen_cons]
  refine forall₂_congr fun front _ => ?_
  rw [List.count_cons_of_ne hopening, List.count_cons_of_ne hclosing]

end Step

/-- The pass over a text goes on behind a beginning of it with as many open brackets as that
beginning leaves open, if it closes none that is not open. -/
lemma balanced_append_iff {depth : Nat} {front back : List Char} :
    balanced depth (front ++ back) = true ↔ ClosesOpen depth front ∧
      ∃ d, depth + front.count '<' = front.count '>' + d ∧ balanced d back = true := by
  induction front generalizing depth with
  | nil => simp [closesOpen_nil]
  | cons c front ih =>
    by_cases hopening : c = '<'
    · subst hopening
      rw [List.cons_append, balanced, if_pos rfl, ih, closesOpen_opening, List.count_cons_self,
        List.count_cons_of_ne (by decide), Nat.add_right_comm, Nat.add_assoc]
    by_cases hclosing : c = '>'
    · subst hclosing
      rw [List.cons_append, balanced, if_neg (by decide), if_pos rfl, Bool.and_eq_true,
        decide_eq_true_iff, ih, closesOpen_closing, List.count_cons_self,
        List.count_cons_of_ne (by decide), and_assoc]
      refine and_congr_right fun hpos => and_congr_right fun _ => exists_congr fun d => ?_
      apply and_congr_left'
      omega
    · rw [List.cons_append, balanced, if_neg hopening, if_neg hclosing, ih,
        closesOpen_plain hopening hclosing, List.count_cons_of_ne hopening,
        List.count_cons_of_ne hclosing]

/-- A wrapper takes out of a text exactly what stands between its name with an opening bracket and
a last closing bracket, if that is not empty and its brackets match; and the pass which decides
this agrees with the grammar on every text and never counts below zero. -/
theorem unwrap?_eq_some_iff_enclosed (name e : String) :
    (∀ inner : String, unwrap? name e.toList = some inner.toList ↔
      e = name ++ "<" ++ inner ++ ">" ∧ inner ≠ "" ∧ Balanced inner.toList) ∧
    (∀ cs, balanced 0 cs = true ↔ Balanced cs) ∧
    ∀ front back, balanced 0 (front ++ back) = true ↔ ClosesOpen 0 front ∧
      ∃ depth, front.count '<' = front.count '>' + depth ∧ balanced depth back = true := by
  refine ⟨fun inner => ?_, fun cs => balanced_iff, fun front back => ?_⟩
  · have htext : e.toList = enclose name inner.toList ↔ e = name ++ "<" ++ inner ++ ">" := by
      rw [← String.toList_inj]
      simp [enclose]
    rw [unwrap?_eq_some_iff, htext, ne_eq, String.toList_eq_nil_iff]
  · rw [balanced_append_iff, Nat.zero_add]

end SchemaClient.Schema.TypeExpr
