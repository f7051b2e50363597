import SchemaClient.Proofs.CutText

/-!
# Bytes that are cut off

A proper beginning of a text that ends with no blank is that text, cut off, whether it is counted
in characters or in bytes. Bytes that are left of a character belong to no character.
-/

namespace SchemaClient.Json.Token
open SchemaClient.Text

section Prefixes

/-- The end of a text is no blank. -/
def EndsSolid (gs : List Glyph) : Prop :=
  ∃ g, gs.getLast? = some g ∧ ∀ c, g = .char c → isBlank c = false

lemma EndsSolid.of_cons {g : Glyph} {gs : List Glyph} (h : EndsSolid (g :: gs)) (hne : gs ≠ []) :
    EndsSolid gs := by
  obtain ⟨last, hlast, hsolid⟩ := h
  rw [List.getLast?_cons_of_ne_nil hne] at hlast
  exact ⟨last, hlast, hsolid⟩

lemma EndsSolid.ofGlyphs_ne_nil {gs : List Glyph} (h : EndsSolid gs) : ofGlyphs gs ≠ [] := by
  fun_induction ofGlyphs gs with
  | case1 =>
    obtain ⟨g, hg, -⟩ := h
    cases hg
  | case2 => exact List.cons_ne_nil _ _
  | case3 c gs hblank ih =>
    apply ih
    apply h.of_cons
    rintro rfl
    obtain ⟨g, hg, hsolid⟩ := h
    obtain rfl := Option.some.inj hg
    rw [hsolid c rfl] at hblank
    cases hblank
  | case4 => exact List.cons_ne_nil _ _
  | case5 => exact List.cons_ne_nil _ _

lemma ne_nil_of_begins {α : Type} {as bs : List α} (h : as <+: bs) (hne : as ≠ bs) : bs ≠ [] := by
  rintro rfl
  exact hne (List.prefix_nil.mp h)

/-- A proper beginning of a text is the text, cut off. -/
theorem cutOff_of_begins {p gs : List Glyph} (hgs : EndsSolid gs) (hp : p <+: gs) (hne : p ≠ gs) :
    CutOff p gs := by
  induction gs generalizing p with
  | nil => exact absurd (List.prefix_nil.mp hp) hne
  | cons g gs ih =>
    cases p with
    | nil => exact .here hgs.ofGlyphs_ne_nil
    | cons h p =>
      obtain ⟨rfl, hp'⟩ := List.cons_prefix_cons.mp hp
      have hne' : p ≠ gs := fun heq => hne (by rw [heq])
      exact .later _ (ih (hgs.of_cons (ne_nil_of_begins hp' hne')) hp' hne')

end Prefixes

section Bytes

open Glyph

/-- Bytes that are a character, whatever follows them: one byte of seven bits, or several bytes of
which all but the first one continue the character. -/
structure IsSpelling (c : Char) (b : UInt8) (tail : List UInt8) : Prop where
  whole : ∀ more, char? (b :: tail ++ more) = some (c, more)
  tail : tail = [] ∨ 0x80 ≤ c.toNat ∧ ∀ b ∈ tail, isTail b = true

lemma le_toNat_ofNat {n : Nat} (h : 0x80 ≤ n) (hvalid : n < 0xD800 ∨ 0xDFFF < n ∧ n < 0x110000) :
    0x80 ≤ (Char.ofNat n).toNat := by
  rw [Char.ofNat, dif_pos hvalid]
  exact h

lemma tailBits_lt (b : UInt8) : tailBits b < 64 :=
  Nat.mod_lt _ (by decide)

variable {a b c d : UInt8}

lemma isSpelling_two (ha : ¬a ≤ 0x7F) (htwo : (0xC2 ≤ a && a ≤ 0xDF) = true)
    (hb : isTail b = true) :
    IsSpelling (Char.ofNat (a.toNat % 32 * 64 + tailBits b)) a [b] := by
  refine ⟨fun more => (if_neg ha).trans ((if_pos htwo).trans (if_pos hb)), .inr ⟨?_, by simpa⟩⟩
  have hbits := tailBits_lt b
  obtain ⟨hlow, hhigh⟩ := Bool.and_eq_true_iff.mp htwo
  have hlow : 0xC2 ≤ a.toNat := UInt8.le_iff_toNat_le.mp (of_decide_eq_true hlow)
  have hhigh : a.toNat ≤ 0xDF := UInt8.le_iff_toNat_le.mp (of_decide_eq_true hhigh)
  apply le_toNat_ofNat <;> omega

lemma isSpelling_three (ha : ¬a ≤ 0x7F) (htwo : ¬(0xC2 ≤ a && a ≤ 0xDF) = true)
    (hthree : (0xE0 ≤ a && a ≤ 0xEF) = true)
    (h : (isTail b && isTail c &&
      0x800 ≤ a.toNat % 16 * 4096 + tailBits b * 64 + tailBits c &&
      !(0xD800 ≤ a.toNat % 16 * 4096 + tailBits b * 64 + tailBits c &&
        a.toNat % 16 * 4096 + tailBits b * 64 + tailBits c ≤ 0xDFFF)) = true) :
    IsSpelling (Char.ofNat (a.toNat % 16 * 4096 + tailBits b * 64 + tailBits c)) a [b, c] := by
  refine ⟨fun more => (if_neg ha).trans ((if_neg htwo).trans ((if_pos hthree).trans (if_pos h))),
    .inr ?_⟩
  have hb := tailBits_lt b
  have hc := tailBits_lt c
  simp only [Bool.and_eq_true, decide_eq_true_iff, Bool.not_eq_true', Bool.and_eq_false_iff,
    decide_eq_false_iff_not] at h
  obtain ⟨⟨⟨htail, htail'⟩, hle⟩, hvalid⟩ := h
  refine ⟨?_, by simp [htail, htail']⟩
  apply le_toNat_ofNat <;> omega

lemma isSpelling_four (ha : ¬a ≤ 0x7F) (htwo : ¬(0xC2 ≤ a && a ≤ 0xDF) = true)
    (hthree : ¬(0xE0 ≤ a && a ≤ 0xEF) = true) (hfour : (0xF0 ≤ a && a ≤ 0xF4) = true)
    (h : (isTail b && isTail c && isTail d &&
      0x10000 ≤ a.toNat % 8 * 262144 + tailBits b * 4096 + tailBits c * 64 + tailBits d &&
      a.toNat % 8 * 262144 + tailBits b * 4096 + tailBits c * 64 + tailBits d ≤ 0x10FFFF) = true) :
    IsSpelling (Char.ofNat
      (a.toNat % 8 * 262144 + tailBits b * 4096 + tailBits c * 64 + tailBits d)) a [b, c, d] := by
  refine ⟨fun more => (if_neg ha).trans ((if_neg htwo).trans ((if_neg hthree).trans
    ((if_pos hfour).trans (if_pos h)))), .inr ?_⟩
  simp only [Bool.and_eq_true, decide_eq_true_iff] at h
  obtain ⟨⟨⟨⟨htail, htail'⟩, htail''⟩, hle⟩, hvalid⟩ := h
  refine ⟨?_, by simp [htail, htail', htail'']⟩
  apply le_toNat_ofNat <;> omega

lemma exists_isSpelling {bs rest : List UInt8} {c : Char} (h : char? bs = some (c, rest)) :
    ∃ b tail, bs = b :: tail ++ rest ∧ IsSpelling c b tail := by
  unfold Glyph.char? at h
  split at h
  · cases h
  next a bs =>
  split at h
  · next ha =>
    obtain ⟨rfl, rfl⟩ := Prod.mk.inj (Option.some.inj h)
    exact ⟨a, [], rfl, fun more => if_pos ha, .inl rfl⟩
  next ha =>
  split at h
  · next htwo =>
    split at h
    · split at h
      · next hb =>
        obtain ⟨rfl, rfl⟩ := Prod.mk.inj (Option.some.inj h)
        exact ⟨a, [_], rfl, isSpelling_two ha htwo hb⟩
      · cases h
    · cases h
  next htwo =>
  split at h
  · next hthree =>
    split at h
    · dsimp only at h
      split at h
      · next hn =>
        obtain ⟨rfl, rfl⟩ := Prod.mk.inj (Option.some.inj h)
        exact ⟨a, [_, _], rfl, isSpelling_three ha htwo hthree hn⟩
      · cases h
    · cases h
  next hthree =>
  split at h
  · next hfour =>
    split at h
    · dsimp only at h
      split at h
      · next hn =>
        obtain ⟨rfl, rfl⟩ := Prod.mk.inj (Option.some.inj h)
        exact ⟨a, [_, _, _], rfl, isSpelling_four ha htwo hthree hfour hn⟩
      · cases h
    · cases h
  · cases h

lemma char?_append {bs rest : List UInt8} {c : Char} (h : char? bs = some (c, rest))
    (more : List UInt8) : char? (bs ++ more) = some (c, rest ++ more) := by
  obtain ⟨b, tail, rfl, hspelling⟩ := exists_isSpelling h
  rw [List.append_assoc]
  exact hspelling.whole (rest ++ more)

lemma char?_of_isTail (h : isTail b = true) (bs : List UInt8) : char? (b :: bs) = none := by
  obtain ⟨hlow, hhigh⟩ := Bool.and_eq_true_iff.mp h
  have hlow : 0x80 ≤ b.toNat := UInt8.le_iff_toNat_le.mp (of_decide_eq_true hlow)
  have hhigh : b.toNat ≤ 0xBF := UInt8.le_iff_toNat_le.mp (of_decide_eq_true hhigh)
  have hbelow (n m : UInt8) (hn : 0xBF < n.toNat) : ¬(decide (n ≤ b) && decide (b ≤ m)) = true := by
    rw [Bool.and_eq_true_iff, not_and_or]
    left
    intro hle
    have := UInt8.le_iff_toNat_le.mp (of_decide_eq_true hle)
    omega
  have hascii : ¬b ≤ 0x7F := by
    intro hle
    have hle : b.toNat ≤ 0x7F := UInt8.le_iff_toNat_le.mp hle
    omega
  unfold char?
  dsimp only
  rw [if_neg hascii, if_neg (hbelow _ _ (by decide)), if_neg (hbelow _ _ (by decide)),
    if_neg (hbelow _ _ (by decide))]

lemma ofBytes_of_char? {rest bs : List UInt8} {c : Char} (h : char? (b :: bs) = some (c, rest)) :
    ofBytes (b :: bs) = .char c :: ofBytes rest := by
  rw [ofBytes]
  split <;> simp_all

lemma ofBytes_of_none {bs : List UInt8} (h : char? (b :: bs) = none) :
    ofBytes (b :: bs) = .stray b :: ofBytes bs := by
  rw [ofBytes]
  split <;> simp_all

lemma ofBytes_tail {bs : List UInt8} (h : ∀ b ∈ bs, isTail b = true) :
    ofBytes bs = bs.map .stray := by
  induction bs with
  | nil => exact ofBytes.eq_1
  | cons b bs ih =>
    obtain ⟨hb, hbs⟩ := List.forall_mem_cons.mp h
    rw [ofBytes_of_none (char?_of_isTail hb bs), ih hbs]
    rfl

/-- The first bytes of a character belong to no character on their own. -/
lemma char?_eq_none_of_begins {c : Char} {tail bs : List UInt8} (h : IsSpelling c b tail)
    (hbs : bs <+: b :: tail) (hne : bs ≠ b :: tail) : char? bs = none := by
  rcases hx : char? bs with _ | ⟨c', rest⟩
  · rfl
  · obtain ⟨more, hmore⟩ := hbs
    have hwhole := h.whole []
    rw [List.append_nil, ← hmore, char?_append hx more] at hwhole
    have hnil := (Prod.mk.inj (Option.some.inj hwhole)).2
    rw [(List.append_eq_nil_iff.mp hnil).2, List.append_nil] at hmore
    exact absurd hmore hne

lemma cutOff_of_spelling {c : Char} {p tail : List UInt8} (h : IsSpelling c b tail)
    (hp : p <+: b :: tail) (hne : p ≠ b :: tail) {gs : List Glyph}
    (hgs : EndsSolid (.char c :: gs)) : CutOff (ofBytes p) (.char c :: gs) := by
  have hnone := char?_eq_none_of_begins h hp hne
  cases p with
  | nil =>
    rw [ofBytes]
    exact .here hgs.ofGlyphs_ne_nil
  | cons a bs =>
    obtain ⟨rfl, hbs⟩ := List.cons_prefix_cons.mp hp
    rcases h.tail with rfl | ⟨hc, htail⟩
    · rw [List.prefix_nil.mp hbs] at hne
      exact absurd rfl hne
    · rw [ofBytes_of_none hnone, ofBytes_tail fun x hx => htail x (hbs.subset hx)]
      exact .inside hc a bs gs

lemma ofBytes_ne_nil {bs : List UInt8} (h : bs ≠ []) : ofBytes bs ≠ [] := by
  cases bs with
  | nil => exact absurd rfl h
  | cons b bs =>
    rw [ofBytes]
    split <;> exact List.cons_ne_nil _ _

/-- Bytes that are cut off are a text that is cut off. -/
theorem cutOff_ofBytes {p bs : List UInt8} (hbs : EndsSolid (ofBytes bs)) (hp : p <+: bs)
    (hne : p ≠ bs) : CutOff (ofBytes p) (ofBytes bs) := by
  fun_induction ofBytes bs generalizing p with
  | case1 => exact absurd (List.prefix_nil.mp hp) hne
  | case2 b bs c rest h ih =>
    obtain ⟨b', tail, hsplit, hspelling⟩ := exists_isSpelling h
    rw [hsplit] at hp hne
    by_cases hwhole : b' :: tail <+: p
    · obtain ⟨p', rfl⟩ := hwhole
      have hp' : p' <+: rest := (List.prefix_append_right_inj _).mp hp
      have hne' : p' ≠ rest := fun heq => hne (by rw [heq])
      have hrest : ofBytes rest ≠ [] := ofBytes_ne_nil (ne_nil_of_begins hp' hne')
      have hchar : char? (b' :: (tail ++ p')) = some (c, p') := hspelling.whole p'
      rw [List.cons_append, ofBytes_of_char? hchar]
      exact .later _ (ih (hbs.of_cons hrest) hp' hne')
    · have hshort : p <+: b' :: tail :=
        (List.prefix_or_prefix_of_prefix hp (List.prefix_append _ rest)).resolve_right hwhole
      have hpart : p ≠ b' :: tail := fun heq => hwhole (heq ▸ List.prefix_rfl)
      exact cutOff_of_spelling hspelling hshort hpart hbs
  | case3 b bs h ih =>
    cases p with
    | nil =>
      rw [ofBytes]
      exact .here hbs.ofGlyphs_ne_nil
    | cons a p =>
      obtain ⟨rfl, hp'⟩ := List.cons_prefix_cons.mp hp
      have hne' : p ≠ bs := fun heq => hne (by rw [heq])
      have hnone : char? (a :: p) = none := by
        rcases hx : char? (a :: p) with _ | ⟨c, rest⟩
        · rfl
        · obtain ⟨more, rfl⟩ := hp'
          cases h.symm.trans (char?_append hx more)
      have hrest : ofBytes bs ≠ [] := ofBytes_ne_nil (ne_nil_of_begins hp' hne')
      rw [ofBytes_of_none hnone]
      exact .later _ (ih (hbs.of_cons hrest) hp' hne')

end Bytes

end SchemaClient.Json.Token
