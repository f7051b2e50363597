import Mathlib.Tactic.Lemma
import Mathlib.Tactic.SplitIfs
import SchemaClient.Toml.Quoted

/-!
# Reading a text that has been quoted

A text is read back from the notation that is chosen for it, whatever characters it holds: every
escape stands for the character it was made from, the quotes inside a text are not taken for the
closing ones, even right in front of those, and of the line breaks in front only the added one is
dropped.
-/

namespace SchemaClient.Toml.Quoted

/-! ## Escapes -/

lemma toNat_lt_of_not_isPlain {c : Char} (h : isPlain c = false) : c.toNat < 0x80 := by
  simp only [isPlain, Bool.or_eq_false_iff, decide_eq_false_iff_not] at h
  omega

lemma hexValue?_digit : ∀ d < 16, hexValue? (Nat.digitChar d).toUpper = some d := by
  decide

lemma hexDigits?_hexText {n : Nat} (h : n < 65536) (rest : List Char) :
    hexDigits? 0 4 (hexText n ++ rest) = some (n, rest) := by
  have h₁ := hexValue?_digit (n / 4096) (by omega)
  have h₂ := hexValue?_digit (n / 256 % 16) (by omega)
  have h₃ := hexValue?_digit (n / 16 % 16) (by omega)
  have h₄ := hexValue?_digit (n % 16) (by omega)
  have hsum : 16 * (16 * (16 * (16 * 0 + n / 4096) + n / 256 % 16) + n / 16 % 16) + n % 16 = n := by
    omega
  simp only [hexText, List.map_cons, List.map_nil, List.cons_append, List.nil_append, hexDigits?,
    h₁, h₂, h₃, h₄, Option.bind_eq_bind, Option.bind_some, hsum]

lemma hexChar?_hexText {c : Char} (h : c.toNat < 65536) (rest : List Char) :
    hexChar? 4 (hexText c.toNat ++ rest) = some (c, rest) := by
  have hvalid : c.toNat.isValidChar := c.valid
  simp only [hexChar?, hexDigits?_hexText h, Option.bind_eq_bind, Option.bind_some, if_pos hvalid,
    Char.ofNat_toNat]
  rfl

/-- What follows a backslash, if both stand for a character and do not end a line. -/
structure IsEscape (c : Char) (cs : List Char) : Prop where
  read : ∀ rest, escape? (cs ++ rest) = some (c, rest)
  notLineEnd : ∀ rest, afterLineEnd? (cs ++ rest) = none

lemma isEscape_cons {c d : Char} {cs : List Char}
    (read : ∀ rest, escape? (d :: cs ++ rest) = some (c, rest)) (hspace : isLineSpace d = false)
    (hbreak : d ≠ '\n' ∧ d ≠ '\r') : IsEscape c (d :: cs) where
  read := read
  notLineEnd rest := by
    rw [afterLineEnd?, List.cons_append, List.dropWhile_cons_of_neg (by simp [hspace])]
    simp [afterBreak?, hbreak.1, hbreak.2]

lemma exists_escape {c : Char} (h : c.toNat < 0x80) :
    ∃ cs, escape c = '\\' :: cs ∧ IsEscape c cs := by
  unfold escape
  split
  case h_8 =>
    refine ⟨_, rfl, isEscape_cons (fun rest => ?_) rfl (by decide)⟩
    exact hexChar?_hexText (by omega) rest
  all_goals exact ⟨_, rfl, isEscape_cons (fun _ => rfl) rfl (by decide)⟩

/-! ## One line -/

lemma basic?_escape {c : Char} {e : List Char} (h : IsEscape c e) (cs : List Char) :
    basic? ('\\' :: (e ++ cs)) = (basic? cs).map fun r => (c :: r.1, r.2) := by
  rw [basic?, if_neg (by decide), if_pos rfl]
  split
  · next h' =>
    obtain ⟨rfl, rfl⟩ := Prod.mk.inj (Option.some.inj (h.read cs ▸ h'))
    rfl
  · next h' => simp [h.read cs] at h'

lemma basic?_escapeAll (cs rest : List Char) :
    basic? (escapeAll cs ++ '"' :: rest) = some (cs, rest) := by
  induction cs with
  | nil => rw [escapeAll, List.nil_append, basic?, if_pos rfl]
  | cons c cs ih =>
    rw [escapeAll, List.append_assoc]
    split
    · next h =>
      obtain ⟨e, he, hescape⟩ := exists_escape (c := c) (by
        obtain rfl | rfl | rfl | h := h
        · decide
        · decide
        · decide
        · exact toNat_lt_of_not_isPlain (by simpa using h))
      rw [he, List.cons_append, basic?_escape hescape, ih]
      rfl
    · next h =>
      simp only [not_or, Bool.not_eq_true, Bool.not_eq_false'] at h
      obtain ⟨hquote, hslash, -, hplain⟩ := h
      rw [List.singleton_append, basic?, if_neg hquote, if_neg hslash, if_pos hplain, ih]
      rfl

lemma literal?_append {cs : List Char} (hplain : ∀ c ∈ cs, isPlain c) (hquote : '\'' ∉ cs)
    (rest : List Char) : literal? (cs ++ '\'' :: rest) = some (cs, rest) := by
  induction cs with
  | nil => rfl
  | cons c cs ih =>
    simp only [List.forall_mem_cons] at hplain
    simp only [List.mem_cons, not_or] at hquote
    rw [List.cons_append, literal?, if_neg (Ne.symm hquote.1), if_pos hplain.1,
      ih hplain.2 hquote.2]
    rfl

/-! ## Several lines -/

lemma afterQuotes?_of_ne {q c : Char} (h : c ≠ q) (cs : List Char) :
    afterQuotes? q (c :: cs) = none := by
  unfold afterQuotes?
  split
  · next heq =>
    obtain ⟨rfl, -⟩ := List.cons.inj heq
    rw [if_neg fun hall => h hall.1]
  · rfl

/-- Up to two quotes in front of another character are not taken for three. -/
lemma afterQuotes?_replicate {q c : Char} (h : c ≠ q) {k : Nat} (hk : k ≤ 2) (cs : List Char) :
    afterQuotes? q (List.replicate k q ++ c :: cs) = none := by
  match k, hk with
  | 0, _ => exact afterQuotes?_of_ne h cs
  | 1, _ => cases cs <;> simp [afterQuotes?, h]
  | 2, _ => simp [List.replicate_succ, afterQuotes?, h]

/-- Up to two quotes behind three others belong to the text that those close. -/
lemma closing_replicate {q : Char} {k : Nat} (hk : k ≤ 2) {rest : List Char}
    (hrest : rest.head? ≠ some q) : closing q (List.replicate k q ++ rest) =
      (List.replicate k q, rest) := by
  match k, hk, rest with
  | 0, _, [] => rfl
  | 0, _, [c] => simp_all [closing]
  | 0, _, c :: d :: rest => simp_all [closing]
  | 1, _, [] => simp [closing]
  | 1, _, c :: rest => simp_all [closing]
  | 2, _, rest => simp [List.replicate_succ, closing]

/-- A reader of texts. -/
abbrev Reader := List Char → Option (List Char × List Char)

/-- How a reader treats the quotes of its notation: three of them close the text. -/
structure Reader.IsClosedBy (read : Reader) (q : Char) : Prop where
  three : ∀ rest, read (q :: q :: q :: rest) = some (closing q rest)
  fewer : ∀ cs, afterQuotes? q (q :: cs) = none →
    read (q :: cs) = (read cs).map fun r => (q :: r.1, r.2)

/-- A piece of a text that a reader takes for one character. -/
structure Reader.IsPiece (read : Reader) (q c : Char) (e : List Char) : Prop where
  noQuote : ∃ d ds, e = d :: ds ∧ d ≠ q
  read : ∀ cs, read (e ++ cs) = (read cs).map fun r => (c :: r.1, r.2)

/-- `read.Spells q k cs w`: behind `k` quotes, the pieces and quotes of `w` are those of the text
`cs`, and no three quotes stand in a row. -/
inductive Reader.Spells (read : Reader) (q : Char) : Nat → List Char → List Char → Prop
  | nil (k : Nat) : Spells read q k [] []
  | quote {k : Nat} {cs w : List Char} : k < 2 → Spells read q (k + 1) cs w →
      Spells read q k (q :: cs) (q :: w)
  | piece {k : Nat} {c : Char} {e cs w : List Char} : read.IsPiece q c e → Spells read q 0 cs w →
      Spells read q k (c :: cs) (e ++ w)

variable {read : Reader} {q : Char}

lemma Reader.IsClosedBy.quotes (h : read.IsClosedBy q) {c : Char} (hc : c ≠ q) {k : Nat}
    (hk : k ≤ 2) (cs : List Char) : read (List.replicate k q ++ c :: cs) =
      (read (c :: cs)).map fun r => (List.replicate k q ++ r.1, r.2) := by
  induction k with
  | zero => simp
  | succ k ih =>
    have hfewer := h.fewer (List.replicate k q ++ c :: cs) (by
      simpa [List.replicate_succ] using afterQuotes?_replicate hc hk cs)
    rw [List.replicate_succ, List.cons_append, hfewer, ih (by omega), Option.map_map]
    rfl

/-- What is spelled in front of three quotes is read back, with the quotes in front of it. -/
lemma Reader.Spells.read_append (hread : read.IsClosedBy q) {k : Nat} (hk : k ≤ 2)
    {cs w : List Char} (h : read.Spells q k cs w) {rest : List Char}
    (hrest : rest.head? ≠ some q) :
    read (List.replicate k q ++ (w ++ q :: q :: q :: rest)) =
      some (List.replicate k q ++ cs, rest) := by
  -- The quotes in front are carried along until it is clear whether three of them are in a row.
  induction h with
  | nil k =>
    have hmove : List.replicate k q ++ ([] ++ q :: q :: q :: rest) =
        q :: q :: q :: (List.replicate k q ++ rest) := by
      calc List.replicate k q ++ (List.replicate 3 q ++ rest)
          = List.replicate (k + 3) q ++ rest := by
            rw [← List.append_assoc, List.replicate_append_replicate]
        _ = List.replicate 3 q ++ (List.replicate k q ++ rest) := by
            rw [← List.append_assoc, List.replicate_append_replicate, Nat.add_comm]
    rw [hmove, hread.three, closing_replicate hk hrest, List.append_nil]
  | @quote k cs w hlt _ ih =>
    have hmove (ds : List Char) :
        List.replicate k q ++ q :: ds = List.replicate (k + 1) q ++ ds := by
      rw [List.replicate_succ', List.append_assoc, List.singleton_append]
    rw [List.cons_append, hmove, ih (by omega), hmove]
  | @piece k c e cs w he _ ih =>
    obtain ⟨d, ds, rfl, hd⟩ := he.noQuote
    have ih := ih (by omega)
    rw [List.replicate_zero, List.nil_append, List.nil_append] at ih
    rw [List.append_assoc, List.cons_append, hread.quotes hd hk, ← List.cons_append, he.read, ih]
    rfl

lemma isClosedBy_basicLines? : Reader.IsClosedBy basicLines? '"' where
  three rest := by simp [basicLines?, afterQuotes?]
  fewer cs h := by
    rw [basicLines?, h]
    simp only []
    rw [if_neg (by decide), if_pos (by rfl)]

lemma isClosedBy_literalLines? : Reader.IsClosedBy literalLines? '\'' where
  three rest := by simp [literalLines?, afterQuotes?]
  fewer cs h := by
    rw [literalLines?, h]
    simp only []
    rw [if_pos (by rfl)]

lemma isPlain_or_break {c : Char} (h : needsEscape c = false) (cs : List Char) :
    (isPlain c || (afterBreak? (c :: cs)).isSome) = true := by
  by_cases hbreak : c = '\n'
  · subst c
    rfl
  · have hplain : isPlain c = true := by simpa [needsEscape, hbreak] using h
    rw [hplain, Bool.true_or]

lemma isPiece_escape {c : Char} {e : List Char} (h : IsEscape c e) :
    Reader.IsPiece basicLines? '"' c ('\\' :: e) where
  noQuote := ⟨_, _, rfl, by decide⟩
  read cs := by
    rw [List.cons_append, basicLines?, afterQuotes?_of_ne (by decide)]
    simp only []
    rw [if_pos trivial]
    split
    · next h' => simp [h.notLineEnd cs] at h'
    · split
      · next h' =>
        obtain ⟨rfl, rfl⟩ := Prod.mk.inj (Option.some.inj (h.read cs ▸ h'))
        rfl
      · next h' => simp [h.read cs] at h'

lemma isPiece_basicLines? {c : Char} (hquote : c ≠ '"') (hslash : c ≠ '\\')
    (hescape : needsEscape c = false) : Reader.IsPiece basicLines? '"' c [c] where
  noQuote := ⟨_, _, rfl, hquote⟩
  read cs := by
    rw [List.singleton_append, basicLines?, afterQuotes?_of_ne hquote]
    simp only []
    rw [if_neg hslash, if_pos (isPlain_or_break hescape cs)]

lemma isPiece_literalLines? {c : Char} (hquote : c ≠ '\'') (hescape : needsEscape c = false) :
    Reader.IsPiece literalLines? '\'' c [c] where
  noQuote := ⟨_, _, rfl, hquote⟩
  read cs := by
    rw [List.singleton_append, literalLines?, afterQuotes?_of_ne hquote]
    simp only []
    rw [if_pos (isPlain_or_break hescape cs)]

lemma spells_escapeLines {k : Nat} (hk : k ≤ 2) (cs : List Char) :
    Reader.Spells basicLines? '"' k cs (escapeLines k cs) := by
  induction cs generalizing k with
  | nil => exact .nil k
  | cons c cs ih =>
    rw [escapeLines]
    split_ifs with hquote htwo h
    · subst c
      obtain ⟨e, he, hescape⟩ := exists_escape (c := '"') (by decide)
      rw [he]
      exact .piece (isPiece_escape hescape) (ih (by omega))
    · subst c
      exact .quote (by omega) (ih (by omega))
    · obtain ⟨e, he, hescape⟩ := exists_escape (c := c) (by
        obtain rfl | rfl | h := h
        · decide
        · decide
        · exact toNat_lt_of_not_isPlain (by simp_all [needsEscape]))
      rw [he]
      exact .piece (isPiece_escape hescape) (ih (by omega))
    · simp only [not_or, Bool.not_eq_true] at h
      exact .piece (isPiece_basicLines? hquote h.1 h.2.2) (ih (by omega))

lemma le_longestRun (c : Char) (n : Nat) (cs : List Char) : n ≤ longestRun c n cs := by
  induction cs generalizing n with
  | nil => exact Nat.le_refl n
  | cons d cs ih =>
    rw [longestRun]
    split
    · exact Nat.le_of_succ_le (ih (n + 1))
    · exact Nat.le_max_left _ _

lemma spells_literalLines {k : Nat} {cs : List Char} (hescape : ∀ c ∈ cs, needsEscape c = false)
    (hrun : longestRun '\'' k cs ≤ 2) : Reader.Spells literalLines? '\'' k cs cs := by
  induction cs generalizing k with
  | nil => exact .nil k
  | cons c cs ih =>
    simp only [List.forall_mem_cons] at hescape
    rw [longestRun] at hrun
    split at hrun
    · subst c
      have := le_longestRun '\'' (k + 1) cs
      exact .quote (by omega) (ih hescape.2 hrun)
    · next hquote =>
      exact .piece (isPiece_literalLines? hquote hescape.1) (ih hescape.2 (by omega))

lemma basicLines?_escapeLines (cs : List Char) {rest : List Char} (hrest : rest.head? ≠ some '"') :
    basicLines? (escapeLines 0 cs ++ '"' :: '"' :: '"' :: rest) = some (cs, rest) :=
  (spells_escapeLines (Nat.zero_le 2) cs).read_append isClosedBy_basicLines? (Nat.zero_le 2) hrest

lemma literalLines?_append {cs : List Char} (hescape : ∀ c ∈ cs, needsEscape c = false)
    (hrun : longestRun '\'' 0 cs ≤ 2) {rest : List Char} (hrest : rest.head? ≠ some '\'') :
    literalLines? (cs ++ '\'' :: '\'' :: '\'' :: rest) = some (cs, rest) :=
  (spells_literalLines hescape hrun).read_append isClosedBy_literalLines? (Nat.zero_le 2) hrest

/-! ## The notation that is chosen -/

lemma choose_literal {cs : List Char} (h : choose cs = .literal) :
    (∀ c ∈ cs, isPlain c) ∧ '\'' ∉ cs := by
  simp only [choose] at h
  split_ifs at h with _ hliteral
  simp only [Bool.not_eq_true', Bool.or_eq_false_iff, List.any_eq_false, List.contains_eq_mem,
    decide_eq_false_iff_not] at hliteral
  obtain ⟨⟨hcodes, hlines⟩, hquote⟩ := hliteral
  refine ⟨fun c hc => ?_, hquote⟩
  have hbreak : c ≠ '\n' := fun heq => hlines (heq ▸ hc)
  simpa [needsEscape, hbreak] using hcodes c hc

lemma choose_literalLines {cs : List Char} (h : choose cs = .literalLines) :
    (∀ c ∈ cs, needsEscape c = false) ∧ longestRun '\'' 0 cs ≤ 2 := by
  simp only [choose] at h
  split_ifs at h with _ _ _ hlines
  simpa using hlines

lemma afterQuotes?_two {q : Char} {w rest : List Char} (hw : w.head? ≠ some q)
    (hrest : rest.head? ≠ some q) : afterQuotes? q (q :: (w ++ q :: rest)) = none := by
  cases w with
  | nil => cases rest <;> simp_all [afterQuotes?]
  | cons c w =>
    have hc : c ≠ q := fun heq => hw (by rw [heq, List.head?_cons])
    exact afterQuotes?_replicate hc (k := 1) (by omega) _

lemma opening?_basic {cs : List Char} (h : afterQuotes? '"' ('"' :: cs) = none) :
    opening? ('"' :: cs) = some (.basic, cs) := by
  simp only [opening?, h, afterQuotes?_of_ne (show '"' ≠ '\'' by decide)]

lemma opening?_literal {cs : List Char} (h : afterQuotes? '\'' ('\'' :: cs) = none) :
    opening? ('\'' :: cs) = some (.literal, cs) := by
  simp only [opening?, h, afterQuotes?_of_ne (show '\'' ≠ '"' by decide)]

lemma opening?_basicLines (cs : List Char) :
    opening? ('"' :: '"' :: '"' :: cs) = some (.basicLines, dropBreak cs) := by
  simp [opening?, afterQuotes?]

lemma opening?_literalLines (cs : List Char) :
    opening? ('\'' :: '\'' :: '\'' :: cs) = some (.literalLines, dropBreak cs) := by
  simp [opening?, afterQuotes?]

lemma opening?_eq_none {c : Char} (hdouble : c ≠ '"') (hsingle : c ≠ '\'') (cs : List Char) :
    opening? (c :: cs) = none := by
  simp [opening?, afterQuotes?_of_ne, hdouble, hsingle]

/-- Whether a line break may begin with a character. -/
def beginsBreak (c : Char) : Bool :=
  c == '\n' || c == '\r'

lemma afterBreak?_eq_none {cs : List Char} (h : cs.head?.any beginsBreak = false) :
    afterBreak? cs = none := by
  unfold afterBreak?
  split <;> simp_all [beginsBreak]

/-- The break that opens a text of several lines is dropped, and no other one is. -/
lemma dropBreak_start {cs w : List Char} (h : '\n' ∉ cs → w.head?.any beginsBreak = false) :
    dropBreak ((if cs.contains '\n' then ['\n'] else []) ++ w) = w := by
  split_ifs with hlines
  · rfl
  · have hhead := h (by simpa using hlines)
    rw [List.nil_append, dropBreak, afterBreak?_eq_none hhead, Option.getD_none]

lemma head?_escape_append (c : Char) (cs : List Char) :
    (escape c ++ cs).head? = some '\\' := by
  unfold escape
  split <;> rfl

lemma head?_escapeAll (cs : List Char) : (escapeAll cs).head? ≠ some '"' := by
  cases cs with
  | nil => simp [escapeAll]
  | cons c cs =>
    rw [escapeAll]
    split_ifs with h
    · rw [head?_escape_append]
      decide
    · simp only [not_or] at h
      simpa using h.1

lemma head?_escapeLines {cs : List Char} (h : '\n' ∉ cs) (w : List Char) :
    (escapeLines 0 cs ++ '"' :: w).head?.any beginsBreak = false := by
  cases cs with
  | nil => rfl
  | cons c cs =>
    simp only [List.mem_cons, not_or] at h
    rw [escapeLines]
    split_ifs with hquote htwo hescape
    · contradiction
    · subst c
      rfl
    · rw [List.append_assoc, head?_escape_append]
      rfl
    · simp only [not_or, needsEscape] at hescape
      have hreturn : c ≠ '\r' := by
        rintro rfl
        exact hescape.2.2 rfl
      simp [beginsBreak, Ne.symm h.1, hreturn]

lemma head?_append_quote {cs : List Char} (hescape : ∀ c ∈ cs, needsEscape c = false)
    (h : '\n' ∉ cs) (w : List Char) : (cs ++ '\'' :: w).head?.any beginsBreak = false := by
  cases cs with
  | nil => rfl
  | cons c cs =>
    simp only [List.mem_cons, not_or] at h
    have hreturn : c ≠ '\r' := by
      rintro rfl
      exact Bool.noConfusion (hescape '\r' List.mem_cons_self)
    simp [beginsBreak, Ne.symm h.1, hreturn]

/-- A text is read back from the notation that is chosen for it. -/
theorem read_write (cs : List Char) {rest : List Char} (hbasic : rest.head? ≠ some '"')
    (hliteral : rest.head? ≠ some '\'') :
    ∃ body, opening? (write cs ++ rest) = some (choose cs, body) ∧
      body? (choose cs) body = some (cs, rest) := by
  unfold write
  cases h : choose cs with
  | basic =>
    refine ⟨_, ?_, basic?_escapeAll cs rest⟩
    rw [List.append_assoc, List.cons_append]
    exact opening?_basic (afterQuotes?_two (head?_escapeAll cs) hbasic)
  | literal =>
    obtain ⟨hplain, hquote⟩ := choose_literal h
    refine ⟨_, ?_, literal?_append hplain hquote rest⟩
    rw [List.append_assoc, List.cons_append]
    have hhead : cs.head? ≠ some '\'' := fun heq => hquote (List.mem_of_head? heq)
    exact opening?_literal (afterQuotes?_two hhead hliteral)
  | basicLines =>
    refine ⟨_, ?_, basicLines?_escapeLines cs hbasic⟩
    simp only [List.append_assoc, List.cons_append, List.nil_append]
    rw [opening?_basicLines, dropBreak_start fun hlines => head?_escapeLines hlines _]
  | literalLines =>
    obtain ⟨hescape, hrun⟩ := choose_literalLines h
    refine ⟨_, ?_, literalLines?_append hescape hrun hliteral⟩
    simp only [List.append_assoc, List.cons_append, List.nil_append]
    rw [opening?_literalLines, dropBreak_start fun hlines => head?_append_quote hescape hlines _]

end SchemaClient.Toml.Quoted
