import Mathlib.Data.Nat.Digits.Defs
import Mathlib.Tactic.Lemma
import SchemaClient.Json.Printer
import SchemaClient.Json.Token

/-!
# Numerals

The text of every number is a word of few characters. A whole number of 64 bits is read back from
its text, wherever the text that stands behind it ends it.
-/

namespace SchemaClient.Text

/-! ### Decimal digits -/

lemma isDigit_of_mem_toDigits {n : Nat} : ∀ c ∈ Nat.toDigits 10 n, c.isDigit :=
  fun _ => Nat.isDigit_of_mem_toDigits (by decide) (by decide)

lemma head?_toDigits {n : Nat} (hn : 0 < n) : (Nat.toDigits 10 n).head? ≠ some '0' := by
  induction n using Nat.base_induction 10 (by decide) with
  | single m hm =>
    have hone : ∀ m < 10, 0 < m → [m.digitChar].head? ≠ some '0' := by decide
    rw [Nat.toDigits_of_lt_base hm]
    exact hone m hm hn
  | digit m k hk hm ih =>
    have hne : Nat.toDigits 10 m ≠ [] := Nat.toDigits_ne_nil
    rw [← Nat.toDigits_append_toDigits (by decide) hm hk, List.head?_append]
    rw [List.head?_eq_some_head hne] at ih ⊢
    exact ih hm

lemma ne_of_isDigit {c d : Char} (h : c.isDigit = true) (hd : d.isDigit = false) : c ≠ d := by
  rintro rfl
  exact Bool.false_ne_true (hd.symm.trans h)

lemma value_pos_of_isDigit {c : Char} (h : c.isDigit) (hne : c ≠ '0') : 0 < c.toNat - 48 := by
  simp only [Char.isDigit, Bool.and_eq_true, decide_eq_true_eq] at h
  have hle : 48 ≤ c.toNat := h.1
  have hzero : c.toNat ≠ 48 := fun heq => hne (Char.toNat_inj.1 heq)
  exact Nat.sub_pos_of_lt (Nat.lt_of_le_of_ne hle (Ne.symm hzero))

end SchemaClient.Text

namespace SchemaClient.Json
open SchemaClient.Text

/-! ### The texts of numbers -/

/-- The characters of which the texts of numbers are made. -/
def isNumberChar (c : Char) : Bool :=
  c.isDigit || c == '-' || c == '+' || c == '.' || c == 'e'

/-- The text is not empty and made of the characters of numbers. -/
def IsNumeral (s : String) : Prop :=
  s ≠ "" ∧ ∀ c ∈ s.toList, isNumberChar c = true

instance (s : String) : Decidable (IsNumeral s) :=
  decidable_of_iff (s ≠ "" ∧ s.toList.all isNumberChar = true) <| by
    rw [List.all_eq_true, IsNumeral]

lemma toNat_of_isNumberChar {c : Char} (h : isNumberChar c = true) :
    43 ≤ c.toNat ∧ c.toNat ≤ 101 := by
  simp only [isNumberChar, Bool.or_eq_true, beq_iff_eq] at h
  obtain (((hdigit | rfl) | rfl) | rfl) | rfl := h
  · simp only [Char.isDigit, Bool.and_eq_true, decide_eq_true_eq] at hdigit
    have hlow := UInt32.le_iff_toNat_le.mp hdigit.1
    have hhigh := UInt32.le_iff_toNat_le.mp hdigit.2
    exact ⟨Nat.le_trans (by decide) hlow, Nat.le_trans hhigh (by decide)⟩
  all_goals decide

lemma isNumberChar_of_mem_toDigits {n : Nat} {c : Char} (h : c ∈ Nat.toDigits 10 n) :
    isNumberChar c = true := by
  simp [isNumberChar, isDigit_of_mem_toDigits c h]

namespace IsNumeral

variable {s t : String}

lemma append (hs : IsNumeral s) (ht : ∀ c ∈ t.toList, isNumberChar c = true) :
    IsNumeral (s ++ t) := by
  obtain ⟨hne, hchars⟩ := hs
  refine ⟨fun hnil => hne (String.append_eq_empty_iff.mp hnil).1, ?_⟩
  rw [String.toList_append, List.forall_mem_append]
  exact ⟨hchars, ht⟩

lemma prepend (hs : IsNumeral s) {cs : List Char} (h : ∀ c ∈ cs, isNumberChar c = true) :
    IsNumeral (String.ofList cs ++ s) := by
  obtain ⟨hne, hchars⟩ := hs
  refine ⟨fun hnil => hne (String.append_eq_empty_iff.mp hnil).2, ?_⟩
  rw [String.toList_append, String.toList_ofList, List.forall_mem_append]
  exact ⟨h, hchars⟩

end IsNumeral

lemma isNumeral_toString (n : Nat) : IsNumeral (toString n) := by
  rw [Nat.toString_eq_ofList_toDigits, IsNumeral, String.toList_ofList]
  refine ⟨?_, fun c => isNumberChar_of_mem_toDigits⟩
  rw [ne_eq, ← String.toList_eq_nil_iff, String.toList_ofList]
  exact Nat.toDigits_ne_nil

lemma isNumeral_printExponent (e : Int) : IsNumeral (printExponent e) := by
  have hsign : IsNumeral ("e" ++ if e < 0 then "-" else "+") := by
    split <;> decide
  exact hsign.append (isNumeral_toString e.natAbs).2

lemma isNumeral_print_binary64 (x : Binary64) : IsNumeral x.print := by
  have hpoint : IsNumeral "." := by decide
  unfold Binary64.print
  obtain ⟨d, p⟩ := x.shortest
  dsimp only
  have hdigits : ∀ c ∈ Nat.toDigits 10 d, isNumberChar c = true :=
    fun c => isNumberChar_of_mem_toDigits
  have hzeros : ∀ n, ∀ c ∈ List.replicate n '0', isNumberChar c = true :=
    fun n c hc => List.eq_of_mem_replicate hc ▸ rfl
  generalize Nat.toDigits 10 d = digits at hdigits ⊢
  have htake : ∀ n, ∀ c ∈ digits.take n, isNumberChar c = true :=
    fun n c hc => hdigits c (List.mem_of_mem_take hc)
  have hdrop : ∀ n, ∀ c ∈ (String.ofList (digits.drop n)).toList, isNumberChar c = true := by
    intro n c hc
    rw [String.toList_ofList] at hc
    exact hdigits c (List.mem_of_mem_drop hc)
  -- One branch for each place of the point, the last one for the notation with an exponent.
  split_ifs
  · decide
  · have hend : IsNumeral ".0" := by decide
    exact hend.prepend (List.forall_mem_append.mpr ⟨hdigits, hzeros _⟩)
  · exact (hpoint.prepend (htake _)).append (hdrop _)
  · have hbegin : IsNumeral "0." := by decide
    apply hbegin.append
    rw [String.toList_ofList, List.forall_mem_append]
    exact ⟨hzeros _, hdigits⟩
  · have hexponent := isNumeral_printExponent (digits.length + p - 1)
    split
    · exact hexponent.prepend hdigits
    · exact ((hpoint.prepend (htake _)).append (hdrop _)).append hexponent.2

lemma Number.print_ofNat (n : Nat) :
    (Number.integer (.ofNat n)).print = String.ofList (Nat.toDigits 10 n) :=
  Nat.toString_eq_ofList_toDigits

lemma Number.print_negSucc (n : Nat) :
    (Number.integer (.negSucc n)).print = "-" ++ String.ofList (Nat.toDigits 10 (n + 1)) := by
  rw [← Nat.toString_eq_ofList_toDigits]
  rfl

/-- The text of every number is a numeral. -/
theorem isNumeral_print (n : Number) : IsNumeral n.print := by
  have hminus : IsNumeral "-" := by decide
  cases n with
  | integer i =>
    cases i with
    | ofNat n => exact isNumeral_toString n
    | negSucc n => exact hminus.append (isNumeral_toString (n + 1)).2
  | float negative x =>
    cases negative with
    | false =>
      have htext : (Number.float false x).print = x.print := String.empty_append
      exact htext ▸ isNumeral_print_binary64 x
    | true => exact hminus.append (isNumeral_print_binary64 x).2

/-! ### Whole numbers that are read back -/

/-- A whole number that fits 64 bits, with a sign if it is negative: JSON values have no others. -/
def Number.IsInteger64 : Number → Prop
  | .integer i => -(2 ^ 63) ≤ i ∧ i < 2 ^ 64
  | .float _ _ => False

instance (n : Number) : Decidable n.IsInteger64 := by
  cases n <;> unfold Number.IsInteger64 <;> infer_instance

namespace NumberText

lemma le_foldl (ds : List Nat) (n : Nat) : n ≤ ds.foldl (fun n d => 10 * n + d) n := by
  induction ds generalizing n with
  | nil => exact Nat.le_refl n
  | cons d ds ih => exact Nat.le_trans (by omega) (ih (10 * n + d))

/-- Digits of a number that fits a word are all collected. -/
lemma wholeDigits_of_le {n : Nat} {ds : List Nat}
    (h : ds.foldl (fun n d => 10 * n + d) n ≤ maxWord) :
    wholeDigits n ds = (ds.foldl (fun n d => 10 * n + d) n, 0) := by
  induction ds generalizing n with
  | nil => rfl
  | cons d ds ih =>
    have hfits : ¬10 * n + d > maxWord := Nat.not_lt.mpr (Nat.le_trans (le_foldl ds _) h)
    rw [wholeDigits, if_neg hfits, ih h, List.foldl_cons]

/-- The digits of a number. -/
def digits (n : Nat) : List Nat :=
  (Nat.toDigits 10 n).map (·.toNat - 48)

lemma foldl_digits (n : Nat) : (digits n).foldl (fun n d => 10 * n + d) 0 = n := by
  rw [digits, List.foldl_map]
  exact Nat.ofDigitChars_ten_toDigits

/-- No zero stands in front of another digit. -/
lemma not_leadingZero_digits (n : Nat) :
    ¬((digits n).head? = some 0 ∧ (digits n).length ≠ 1) := by
  rintro ⟨hhead, hlength⟩
  rcases Nat.eq_zero_or_pos n with rfl | hn
  · exact hlength (by rw [digits, Nat.toDigits_zero]; rfl)
  · rw [digits, List.head?_map, Option.map_eq_some_iff] at hhead
    obtain ⟨c, hc, hzero⟩ := hhead
    have hdigit := isDigit_of_mem_toDigits c (List.mem_of_head? hc)
    have hpos := value_pos_of_isDigit hdigit (by rintro rfl; exact head?_toDigits hn hc)
    omega

lemma toInteger?_digits (negative : Bool) {n : Nat} (h : n ≤ maxWord) :
    (⟨negative, digits n, [], none⟩ : NumberText).toInteger? =
      if negative then (if 0 < n ∧ n ≤ 0x8000000000000000 then some (-(n : Int)) else none)
      else some (n : Int) := by
  have hwhole : wholeDigits 0 (digits n) = (n, 0) := by
    rw [wholeDigits_of_le (by rwa [foldl_digits]), foldl_digits]
  simp only [toInteger?, hwhole]

lemma value?_digits {n : Nat} (h : n < 2 ^ 64) :
    (⟨false, digits n, [], none⟩ : NumberText).value? = some (.integer (.ofNat n)) := by
  have hfits : n ≤ maxWord := by rw [maxWord]; omega
  rw [value?, toInteger?_digits false hfits]
  rfl

lemma value?_digits_negative {n : Nat} (h : n < 2 ^ 63) :
    (⟨true, digits (n + 1), [], none⟩ : NumberText).value? = some (.integer (.negSucc n)) := by
  have hfits : n + 1 ≤ maxWord := by rw [maxWord]; omega
  rw [value?, toInteger?_digits true hfits, if_pos rfl, if_pos (by omega)]
  rfl

end NumberText

namespace Token

/-- The glyphs of characters. -/
abbrev glyphs (cs : List Char) : List Glyph := cs.map .char

/-- A character behind which a number may go on when it is read. -/
def continuesNumber (c : Char) : Bool :=
  c.isDigit || c == '.' || c == 'e' || c == 'E'

/-- A number in front of the text ends there. -/
def EndsNumber (cs : List Char) : Prop :=
  cs.head?.any continuesNumber = false

lemma spanDigits_append {cs rest : List Char} (h : ∀ c ∈ cs, c.isDigit = true)
    (hrest : EndsNumber rest) :
    spanDigits (glyphs (cs ++ rest)) = (cs.map (·.toNat - 48), glyphs rest) := by
  induction cs with
  | nil =>
    cases rest with
    | nil => rfl
    | cons c rest =>
      have hc : c.isDigit = false := by
        simp [EndsNumber, continuesNumber] at hrest
        exact hrest.1.1.1
      simp [spanDigits, digit?, hc]
  | cons c cs ih =>
    obtain ⟨hc, hcs⟩ := List.forall_mem_cons.mp h
    simp only [List.cons_append, List.map_cons, spanDigits, digit?, hc, if_true, ih hcs]

lemma scanFraction_of_ends {rest : List Char} (h : EndsNumber rest) :
    scanFraction (glyphs rest) = .ok ([], glyphs rest) := by
  cases rest with
  | nil => rfl
  | cons c rest =>
    have hc : c ≠ '.' := by rintro rfl; cases h
    simp [scanFraction, hc]

lemma scanExponent_of_ends {rest : List Char} (h : EndsNumber rest) :
    scanExponent (glyphs rest) = .ok (none, glyphs rest) := by
  cases rest with
  | nil => rfl
  | cons c rest =>
    have hsmall : c ≠ 'e' := by rintro rfl; cases h
    have hgreat : c ≠ 'E' := by rintro rfl; cases h
    simp [scanExponent, hsmall, hgreat]

lemma scanNumber_toDigits (negative : Bool) (n : Nat) {rest : List Char} (h : EndsNumber rest) :
    scanNumber negative (glyphs (Nat.toDigits 10 n ++ rest)) =
      .ok (⟨negative, NumberText.digits n, [], none⟩, glyphs rest) := by
  have hspan := spanDigits_append (isDigit_of_mem_toDigits (n := n)) h
  have hdigits : scanDigits (glyphs (Nat.toDigits 10 n ++ rest)) =
      .ok (NumberText.digits n, glyphs rest) := by
    have hne : NumberText.digits n ≠ [] := List.map_eq_nil_iff.not.mpr Nat.toDigits_ne_nil
    rw [scanDigits, hspan]
    split
    · next heq => exact absurd (Prod.mk.inj heq).1 hne
    · rfl
  have hzero := NumberText.not_leadingZero_digits n
  simp only [scanNumber, hdigits, bind, Except.bind, if_neg hzero, scanFraction_of_ends h,
    scanExponent_of_ends h, pure, Except.pure]

lemma scan_of_isDigit {c : Char} (h : c.isDigit = true) (gs : List Glyph) :
    scan c gs = ofNumber (scanNumber false (.char c :: gs)) := by
  have hnone : punctuation? c = none := by
    unfold punctuation?
    split <;> first | rfl | exact absurd rfl (ne_of_isDigit h rfl)
  rw [scan, hnone]
  simp only []
  rw [if_neg (ne_of_isDigit h rfl), scanPlain, if_neg (ne_of_isDigit h rfl), if_pos h]

/-- What stands behind the first character of a whole number is read on as this number, where
nothing behind it goes on with it. -/
lemma scan_print {n : Number} (hn : n.IsInteger64) {rest : List Char} (h : EndsNumber rest) :
    ∃ c cs, n.print.toList = c :: cs ∧ isBlank c = false ∧
      scan c (glyphs (cs ++ rest)) = .ok (.number (some n), glyphs rest) := by
  cases n with
  | float => exact hn.elim
  | integer i =>
    obtain ⟨hlow, hhigh⟩ := hn
    cases i with
    | ofNat n =>
      have hfits : n < 2 ^ 64 := Int.ofNat_lt.mp hhigh
      obtain ⟨c, cs, hcs⟩ := List.exists_cons_of_ne_nil (Nat.toDigits_ne_nil (n := n) (b := 10))
      have hc := isDigit_of_mem_toDigits c (hcs ▸ List.mem_cons_self)
      have hne (d : Char) (hd : d.isDigit = false) := ne_of_isDigit hc hd
      refine ⟨c, cs, ?_, ?_, ?_⟩
      · rw [Number.print_ofNat, String.toList_ofList, hcs]
      · simp [isBlank, hne ' ' rfl, hne '\n' rfl, hne '\t' rfl, hne '\r' rfl]
      · have hscan := scanNumber_toDigits false n h
        rw [hcs, List.cons_append, glyphs, List.map_cons] at hscan
        rw [scan_of_isDigit hc, glyphs, hscan, ofNumber, NumberText.value?_digits hfits]
    | negSucc n =>
      have hfits : n < 2 ^ 63 := by omega
      refine ⟨'-', Nat.toDigits 10 (n + 1), by simp [Number.print_negSucc], by decide, ?_⟩
      calc scan '-' (glyphs (Nat.toDigits 10 (n + 1) ++ rest))
          = ofNumber (scanNumber true (glyphs (Nat.toDigits 10 (n + 1) ++ rest))) := rfl
        _ = .ok (.number (some (.integer (.negSucc n))), glyphs rest) := by
          rw [scanNumber_toDigits true (n + 1) h, ofNumber,
            NumberText.value?_digits_negative hfits]

end Token

end SchemaClient.Json
