import Mathlib
import SchemaClient.Text.Space

/-!
# Lines, and the end of a text

A text that ends in a character other than white space is what is left when white space is put
behind it and trimmed again. A text is cut into lines at its line feeds, and lines that are put
behind each other are found again.
-/

namespace SchemaClient.Text

section Stops

variable {p : Char → Bool} {c : Char} (hc : p c = false) (front back : List Char)
include hc

lemma dropWhile_append_cons :
    (front ++ c :: back).dropWhile p = front.dropWhile p ++ c :: back := by
  rw [List.dropWhile_append]
  split
  · next hempty => rw [List.dropWhile_cons_of_neg (by simp [hc]), List.isEmpty_iff.mp hempty,
      List.nil_append]
  · rfl

lemma dropEndWhile_append_cons :
    dropEndWhile p (front ++ c :: back) = front ++ c :: dropEndWhile p back := by
  have hreverse : (front ++ c :: back).reverse = back.reverse ++ c :: front.reverse := by simp
  rw [dropEndWhile, hreverse, dropWhile_append_cons hc]
  simp [dropEndWhile]

end Stops

/-- A text ends in a character other than white space. -/
def IsSolid (cs : List Char) : Prop :=
  ∃ front c, cs = front ++ [c] ∧ isSpace c = false

instance (cs : List Char) : Decidable (IsSolid cs) :=
  decidable_of_iff (cs.getLast?.any (fun c => !isSpace c) = true) <| by
    simp only [IsSolid, Option.any_eq_true, Bool.not_eq_true', List.getLast?_eq_some_iff]
    constructor
    · rintro ⟨c, ⟨front, hfront⟩, hc⟩
      exact ⟨front, c, hfront, hc⟩
    · rintro ⟨front, c, hfront, hc⟩
      exact ⟨c, ⟨front, hfront⟩, hc⟩

namespace IsSolid

lemma append {cs : List Char} (h : IsSolid cs) (front : List Char) : IsSolid (front ++ cs) := by
  obtain ⟨init, c, rfl, hc⟩ := h
  exact ⟨front ++ init, c, (List.append_assoc ..).symm, hc⟩

lemma of_append (front : List Char) {cs : List Char} (h : IsSolid (front ++ cs)) (hne : cs ≠ []) :
    IsSolid cs := by
  obtain ⟨init, c, heq, hc⟩ := h
  obtain ⟨init', d, rfl⟩ := (List.eq_nil_or_concat cs).resolve_left hne
  rw [List.concat_eq_append, ← List.append_assoc] at heq
  obtain ⟨-, hlast⟩ := List.append_inj' heq rfl
  obtain rfl := (List.cons.inj hlast).1
  exact ⟨init', d, List.concat_eq_append .., hc⟩

end IsSolid

lemma isSolid_trimEnd {cs : List Char} (h : trimEnd cs ≠ []) : IsSolid (trimEnd cs) := by
  obtain ⟨c, rest, hrest⟩ := List.exists_cons_of_ne_nil (l := cs.reverse.dropWhile isSpace)
    fun hnil => h (by rw [trimEnd, dropEndWhile, hnil, List.reverse_nil])
  have hc := List.head?_dropWhile_not isSpace cs.reverse
  rw [hrest] at hc
  exact ⟨rest.reverse, c, by rw [trimEnd, dropEndWhile, hrest, List.reverse_cons], hc⟩

lemma trimEnd_eq_nil_iff {cs : List Char} : trimEnd cs = [] ↔ ∀ c ∈ cs, isSpace c = true := by
  rw [trimEnd, dropEndWhile, List.reverse_eq_nil_iff, List.dropWhile_eq_nil_iff]
  simp

lemma trimEnd_append_spaces (cs : List Char) {back : List Char}
    (h : ∀ c ∈ back, isSpace c = true) : trimEnd (cs ++ back) = trimEnd cs := by
  have hreverse : ∀ c ∈ back.reverse, isSpace c = true := fun c hc => h c (List.mem_reverse.mp hc)
  rw [trimEnd, dropEndWhile, List.reverse_append, List.dropWhile_append_of_pos hreverse, trimEnd,
    dropEndWhile]

lemma IsSolid.trimEnd_append {cs back : List Char} (h : IsSolid cs)
    (hback : ∀ c ∈ back, isSpace c = true) : trimEnd (cs ++ back) = cs := by
  obtain ⟨front, c, rfl, hc⟩ := h
  have hnil : dropEndWhile isSpace back = [] := trimEnd_eq_nil_iff.mpr hback
  rw [trimEnd, List.append_assoc, List.singleton_append, dropEndWhile_append_cons hc, hnil]

lemma eq_trimEnd_append (cs : List Char) :
    ∃ back, cs = trimEnd cs ++ back ∧ ∀ c ∈ back, isSpace c = true := by
  refine ⟨(cs.reverse.takeWhile isSpace).reverse, (dropEndWhile_append_dropped isSpace cs).symm, ?_⟩
  intro c hc
  exact List.mem_takeWhile_imp (List.mem_reverse.mp hc)

/-! ### Lines -/

/-- What holds of a text on one line and is kept by a line put in front holds of every text. -/
@[elab_as_elim]
lemma induction_lines {motive : List Char → Prop} (single : ∀ cs, '\n' ∉ cs → motive cs)
    (next : ∀ l cs, '\n' ∉ l → motive cs → motive (l ++ '\n' :: cs)) (cs : List Char) :
    motive cs := by
  induction hn : cs.length using Nat.strong_induction_on generalizing cs with
  | _ n ih =>
    by_cases h : '\n' ∈ cs
    · obtain ⟨l, rest, rfl, hl⟩ := List.eq_append_cons_of_mem h
      have hlt : rest.length < n := by
        rw [← hn, List.length_append, List.length_cons]
        omega
      exact next l rest hl (ih rest.length hlt rest rfl)
    · exact single cs h

lemma length_splitOn (cs : List Char) : (cs.splitOn '\n').length = cs.count '\n' + 1 := by
  induction cs using induction_lines with
  | single cs h => rw [List.splitOn_eq_singleton h, List.count_eq_zero_of_not_mem h]; rfl
  | next l cs h ih =>
    rw [List.splitOn_append_cons_self_of_not_mem h, List.length_cons, ih, List.count_append,
      List.count_eq_zero_of_not_mem h, List.count_cons_self, Nat.zero_add]

lemma not_mem_of_mem_splitOn {l cs : List Char} (hl : l ∈ cs.splitOn '\n') : '\n' ∉ l := by
  induction cs using induction_lines with
  | single cs h =>
    rw [List.splitOn_eq_singleton h, List.mem_singleton] at hl
    exact hl ▸ h
  | next k cs h ih =>
    rw [List.splitOn_append_cons_self_of_not_mem h] at hl
    rcases List.mem_cons.mp hl with rfl | hlater
    · exact h
    · exact ih hlater

lemma getLast?_splitOn {cs : List Char} (h : IsSolid cs) :
    (cs.splitOn '\n').getLast? ≠ some [] := by
  induction cs using induction_lines with
  | single cs hline =>
    obtain ⟨front, c, rfl, -⟩ := h
    rw [List.splitOn_eq_singleton hline]
    simp
  | next l cs hline ih =>
    have hne : cs ≠ [] := by
      rintro rfl
      obtain ⟨front, c, heq, hc⟩ := h
      obtain ⟨-, hlast⟩ := List.append_inj' heq rfl
      obtain rfl := (List.cons.inj hlast).1
      exact absurd hc (by decide)
    have hrest : IsSolid cs := by
      have hsplit : l ++ '\n' :: cs = (l ++ ['\n']) ++ cs := by simp
      exact IsSolid.of_append _ (hsplit ▸ h) hne
    rw [List.splitOn_append_cons_self_of_not_mem hline, ← List.singleton_append,
      List.getLast?_append_of_ne_nil _ (List.splitOn_ne_nil '\n' cs)]
    exact ih hrest

/-- Lines that are put behind each other are found again. -/
lemma splitOn_flatMap_append {ls : List (List Char)} {l : List Char} (hls : ∀ l ∈ ls, '\n' ∉ l)
    (hl : '\n' ∉ l) : (ls.flatMap (· ++ ['\n']) ++ l).splitOn '\n' = ls ++ [l] := by
  induction ls with
  | nil => exact List.splitOn_eq_singleton hl
  | cons k ls ih =>
    obtain ⟨hk, hls⟩ := List.forall_mem_cons.mp hls
    rw [List.flatMap_cons, List.append_assoc, List.append_assoc, List.singleton_append,
      List.splitOn_append_cons_self_of_not_mem hk, ih hls, List.cons_append]

end SchemaClient.Text
