import SchemaClient.Proofs.JsonReading
import SchemaClient.Report.Format

/-!
# The two layouts of JSON

A report as JSON on several lines and as JSON on one line are both read back as the report. They
differ in nothing but the blanks between tokens, and the one without these holds no line feed.
-/

namespace SchemaClient.Json
open SchemaClient.Text

/-- The text without the blanks that stand outside strings; `inString` tells whether it begins
inside one. -/
def withoutBlanks : Bool → List Char → List Char
  | _, [] => []
  | true, '\\' :: c :: cs => '\\' :: c :: withoutBlanks true cs
  | inString, c :: cs =>
    if c = '"' then c :: withoutBlanks (!inString) cs
    else if !inString && Token.isBlank c then withoutBlanks inString cs
    else c :: withoutBlanks inString cs

lemma withoutBlanks_escape (c : Char) (rest : List Char) :
    withoutBlanks true ('\\' :: c :: rest) = '\\' :: c :: withoutBlanks true rest := by
  rw [withoutBlanks]

lemma withoutBlanks_true_cons {c : Char} (hquote : c ≠ '"') (hslash : c ≠ '\\')
    (rest : List Char) : withoutBlanks true (c :: rest) = c :: withoutBlanks true rest := by
  rw [withoutBlanks, if_neg hquote]
  · rfl
  · rintro - d cs rfl
    exact absurd rfl hslash

lemma withoutBlanks_false_cons {c : Char} (hquote : c ≠ '"') (hblank : Token.isBlank c = false)
    (rest : List Char) : withoutBlanks false (c :: rest) = c :: withoutBlanks false rest := by
  rw [withoutBlanks, if_neg hquote, hblank]
  · rfl
  · simp

lemma withoutBlanks_blank {c : Char} (hblank : Token.isBlank c = true) (rest : List Char) :
    withoutBlanks false (c :: rest) = withoutBlanks false rest := by
  have hquote : c ≠ '"' := by
    rintro rfl
    cases hblank
  rw [withoutBlanks, if_neg hquote, hblank]
  · rfl
  · simp

/-- A character is written as a backslash and another one, as a backslash, the letter u and four
digits, or as itself. -/
lemma escapeChar_cases (c : Char) :
    (∃ d, escapeChar c = ['\\', d] ∧ d ≠ '\n') ∨
    (∃ m < 16, ∃ n < 16, escapeChar c = ['\\', 'u', '0', '0', hexDigit m, hexDigit n]) ∨
    (escapeChar c = [c] ∧ c ≠ '"' ∧ c ≠ '\\' ∧ c ≠ '\n') := by
  unfold escapeChar
  split_ifs with hquote hslash hb ht hn hf hr hcontrol
  iterate 7
    case pos => exact .inl ⟨_, rfl, by decide⟩
  case pos => exact .inr (.inl ⟨_, by omega, _, by omega, rfl⟩)
  case neg => exact .inr (.inr ⟨rfl, hquote, hslash, hn⟩)

lemma withoutBlanks_escapeChar (c : Char) (rest : List Char) :
    withoutBlanks true (escapeChar c ++ rest) = escapeChar c ++ withoutBlanks true rest := by
  have hhex : ∀ n < 16, hexDigit n ≠ '"' ∧ hexDigit n ≠ '\\' := by decide
  obtain ⟨d, hc, -⟩ | ⟨m, hm, n, hn, hc⟩ | ⟨hc, hquote, hslash, -⟩ := escapeChar_cases c <;> rw [hc]
  · exact withoutBlanks_escape d rest
  · obtain ⟨hquote, hslash⟩ := hhex m hm
    obtain ⟨hquote', hslash'⟩ := hhex n hn
    have hzero : '0' ≠ '"' ∧ '0' ≠ '\\' := by decide
    calc withoutBlanks true (['\\', 'u', '0', '0', hexDigit m, hexDigit n] ++ rest)
        = '\\' :: 'u' :: withoutBlanks true ('0' :: '0' :: hexDigit m :: hexDigit n :: rest) :=
          withoutBlanks_escape 'u' _
      _ = ['\\', 'u', '0', '0', hexDigit m, hexDigit n] ++ withoutBlanks true rest := by
          rw [withoutBlanks_true_cons hzero.1 hzero.2, withoutBlanks_true_cons hzero.1 hzero.2,
            withoutBlanks_true_cons hquote hslash, withoutBlanks_true_cons hquote' hslash']
          rfl
  · exact withoutBlanks_true_cons hquote hslash rest

lemma newline_not_mem_escapeChar (c : Char) : '\n' ∉ escapeChar c := by
  have hhex : ∀ n < 16, '\n' ≠ hexDigit n := by decide
  obtain ⟨d, hc, hd⟩ | ⟨m, hm, n, hn, hc⟩ | ⟨hc, -, -, hne⟩ := escapeChar_cases c <;> rw [hc]
  · simp [hd.symm]
  · simp [hhex m hm, hhex n hn]
  · simp [hne.symm]

/-- In a quoted text nothing is left out. -/
lemma withoutBlanks_quote (s : String) (rest : List Char) :
    withoutBlanks false ((quote s).toList ++ rest) =
      (quote s).toList ++ withoutBlanks false rest := by
  have hbody (cs : List Char) : withoutBlanks true (cs.flatMap escapeChar ++ '"' :: rest) =
      cs.flatMap escapeChar ++ '"' :: withoutBlanks false rest := by
    induction cs with
    | nil => rfl
    | cons c cs ih =>
      rw [List.flatMap_cons, List.append_assoc, withoutBlanks_escapeChar, ih, List.append_assoc]
  have htext (cs : List Char) : (quote s).toList ++ cs =
      '"' :: (s.toList.flatMap escapeChar ++ '"' :: cs) := by simp [quote]
  rw [htext, htext]
  exact congrArg (List.cons '"') (hbody s.toList)

lemma newline_not_mem_quote (s : String) : '\n' ∉ (quote s).toList := by
  simp [quote]
  intro c _
  exact newline_not_mem_escapeChar c

/-- No character of the text is a quote or a blank. -/
def IsUnquoted (cs : List Char) : Prop :=
  ∀ c ∈ cs, c ≠ '"' ∧ Token.isBlank c = false

instance (cs : List Char) : Decidable (IsUnquoted cs) :=
  decidable_of_iff (cs.all (fun c => c != '"' && !Token.isBlank c) = true) <| by
    simp [IsUnquoted]

namespace IsUnquoted

variable {cs : List Char} (h : IsUnquoted cs)
include h

lemma withoutBlanks_append (rest : List Char) :
    withoutBlanks false (cs ++ rest) = cs ++ withoutBlanks false rest := by
  induction cs with
  | nil => rfl
  | cons c cs ih =>
    obtain ⟨⟨hquote, hblank⟩, hcs⟩ := List.forall_mem_cons.mp h
    rw [List.cons_append, withoutBlanks_false_cons hquote hblank, ih hcs, List.cons_append]

lemma newline_not_mem : '\n' ∉ cs :=
  fun hmem => Bool.false_ne_true (h _ hmem).2.symm

end IsUnquoted

lemma isUnquoted_of_isNumeral {s : String} (h : IsNumeral s) : IsUnquoted s.toList := by
  intro c hc
  have hbounds := toNat_of_isNumberChar (h.2 c hc)
  have hne (d : Char) (hd : d.toNat < 43) : c ≠ d := by
    rintro rfl
    omega
  refine ⟨hne '"' (by decide), ?_⟩
  simp [Token.isBlank, hne ' ' (by decide), hne '\n' (by decide), hne '\t' (by decide),
    hne '\r' (by decide)]

namespace Token

lemma isUnquoted_of_punctuation? {c : Char} {t : Token} (h : punctuation? c = some t) :
    IsUnquoted [c] := by
  unfold punctuation? at h
  split at h <;> first | decide | cases h

lemma Written.withoutBlanks_append {t : Token} {cs : List Char} (h : Written t cs)
    (rest : List Char) : withoutBlanks false (cs ++ rest) = cs ++ withoutBlanks false rest := by
  cases h with
  | punctuation h => exact (isUnquoted_of_punctuation? h).withoutBlanks_append rest
  | null => exact IsUnquoted.withoutBlanks_append (by decide) rest
  | bool b => cases b <;> exact IsUnquoted.withoutBlanks_append (by decide) rest
  | string s => exact withoutBlanks_quote s rest

lemma Written.newline_not_mem {t : Token} {cs : List Char} (h : Written t cs) : '\n' ∉ cs := by
  cases h with
  | punctuation h => exact (isUnquoted_of_punctuation? h).newline_not_mem
  | null => decide
  | bool b => cases b <;> decide
  | string s => exact newline_not_mem_quote s

/-- Two texts of the same tokens differ only in the blanks, of which the second one has none. -/
theorem Spells.withoutBlanks_eq {wide tight : List Char} {ts : List Token}
    (h : Spells wide tight ts) : withoutBlanks false wide = tight ∧ '\n' ∉ tight := by
  induction h with
  | nil => exact ⟨rfl, List.not_mem_nil⟩
  | blank hblank _ ih => exact ⟨(withoutBlanks_blank hblank _).trans ih.1, ih.2⟩
  | written h _ ih =>
    rw [h.withoutBlanks_append, ih.1, List.mem_append, not_or]
    exact ⟨rfl, h.newline_not_mem, ih.2⟩
  | @number n _ _ _ _ _ _ _ ih =>
    have hword := isUnquoted_of_isNumeral (isNumeral_print n)
    rw [hword.withoutBlanks_append, ih.1, List.mem_append, not_or]
    exact ⟨rfl, hword.newline_not_mem, ih.2⟩

end Token

lemma ofString?_of_ofGlyphs {s : String} {v : Json}
    (h : Token.ofGlyphs (Token.glyphs s.toList) = tokens v) : ofString? s = some v := by
  rw [ofString?, Glyph.ofString, h, Outline.ofTokens_tokens]
  exact Outline.value?_ofJson v

end SchemaClient.Json

namespace SchemaClient.Report

/-- A report without floating point numbers is told by its JSON on several lines and by its JSON on
one line. The latter holds no line feed and is the former without the blanks outside strings. -/
theorem render_json_text {v : Json} (h : v.IsIntegral) (colours : Bool) :
    Json.ofString? (render .json colours v) = some v ∧
    Json.ofString? (render .text colours v) = some v ∧
    '\n' ∉ (render .text colours v).toList ∧
    Json.withoutBlanks false (render .json colours v).toList =
      (render .text colours v).toList := by
  have hspells : Json.Token.Spells (render .json colours v).toList
      (render .text colours v).toList (Json.tokens v) := Json.spells_texts h
  obtain ⟨hjson, htext⟩ := hspells.ofGlyphs_eq
  obtain ⟨hblanks, hnewline⟩ := hspells.withoutBlanks_eq
  exact ⟨Json.ofString?_of_ofGlyphs hjson, Json.ofString?_of_ofGlyphs htext, hnewline, hblanks⟩

/-- A report with brackets, quotes, spaces and line feeds in its strings. -/
def nestedReport : Json :=
  .object [("a \"key\": ", .array [.number (.integer (-9223372036854775808)), .array []]),
    ("\\", .object [("text", .string "[ 1,\n 2 ]\x01"), ("none", .null)])]

lemma isIntegral_nestedReport : nestedReport.IsIntegral := by
  refine .object (by simp) ?_
  simp only [List.forall_mem_cons]
  refine ⟨.array ?_, .object (by simp) ?_, nofun⟩ <;> simp only [List.forall_mem_cons]
  · exact ⟨.number (by decide), .array nofun, nofun⟩
  · exact ⟨.string trivial, .null, nofun⟩

theorem render_json_text_nestedReport : nestedReport.IsIntegral ∧
    Json.ofString? (render .json false nestedReport) = some nestedReport ∧
    Json.ofString? (render .text false nestedReport) = some nestedReport ∧
    '\n' ∉ (render .text false nestedReport).toList ∧
    Json.withoutBlanks false (render .json false nestedReport).toList =
      (render .text false nestedReport).toList :=
  ⟨isIntegral_nestedReport, render_json_text isIntegral_nestedReport false⟩

end SchemaClient.Report
