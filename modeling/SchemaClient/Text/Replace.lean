/-!
# Replacing parts of a text

Every occurrence of a text inside another one gives way to a third. Occurrences are found from the
left and do not overlap.
-/

namespace SchemaClient.Text

/-- The text with `new` in place of every `old`, which is not empty. -/
def replaceAll (old new : List Char) : List Char → List Char
  | [] => []
  | c :: cs =>
    if old.isPrefixOf (c :: cs) then new ++ replaceAll old new (cs.drop (old.length - 1))
    else c :: replaceAll old new cs
termination_by cs => cs.length
decreasing_by
  · simp only [List.length_drop, List.length_cons]
    omega
  · simp only [List.length_cons, Nat.lt_add_one]

theorem replaceAll_nil (old new : List Char) : replaceAll old new [] = [] := by
  rw [replaceAll]

theorem replaceAll_append {old new : List Char} (hold : old ≠ []) (cs : List Char) :
    replaceAll old new (old ++ cs) = new ++ replaceAll old new cs := by
  obtain ⟨c, rest, rfl⟩ := List.exists_cons_of_ne_nil hold
  have hprefix : (c :: rest).isPrefixOf ((c :: rest) ++ cs) = true :=
    List.isPrefixOf_iff_prefix.mpr (List.prefix_append _ _)
  rw [List.cons_append] at hprefix ⊢
  rw [replaceAll, if_pos hprefix, List.length_cons, Nat.add_sub_cancel, List.drop_left]

theorem replaceAll_cons_of_not_prefix {old new : List Char} {c : Char} {cs : List Char}
    (h : ¬old <+: c :: cs) :
    replaceAll old new (c :: cs) = c :: replaceAll old new cs := by
  rw [replaceAll, if_neg (by rwa [List.isPrefixOf_iff_prefix])]

theorem replaceAll_singleton (a : Char) (new cs : List Char) :
    replaceAll [a] new cs = cs.flatMap fun c => if c = a then new else [c] := by
  induction cs with
  | nil => rw [replaceAll_nil, List.flatMap_nil]
  | cons c cs ih =>
    rw [replaceAll, List.flatMap_cons]
    by_cases hc : c = a
    · simp [hc, ih]
    · simp [hc, Ne.symm hc, ih]

end SchemaClient.Text
