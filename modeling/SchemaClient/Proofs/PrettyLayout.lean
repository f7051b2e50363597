import SchemaClient.Proofs.Numeral
import SchemaClient.Proofs.PrettyTree
import SchemaClient.Proofs.TextLines

/-!
# The layout for people is unambiguous

Every entry of an object and every item of an array stands on a line of its own. Its indentation
tells how deep it stands, its beginning whether it is an entry or an item, and what follows whether
it holds further ones, which stand on the next lines. So the text of a value tells its tree.
-/

namespace SchemaClient.Report
open SchemaClient.Text

/-! ### Lines -/

namespace Row

/-- What stands on a line behind its beginning. -/
def tail (r : Row) : List Char :=
  match r.text with
  | none => []
  | some text => ' ' :: text.toList

/-- The line that a row is written as, without the line break at its end. -/
def line (r : Row) : List Char :=
  List.replicate (2 * r.depth) ' ' ++ (mark false r.label).toList ++ r.tail

end Row

lemma toList_branchLines {b : Branch} (depth : Nat)
    (ih : ∀ depth, isNested b.2 = true →
      (block false depth b.2).toList = (rows depth b.2).flatMap (·.line ++ ['\n'])) :
    (branchLines false depth b).toList =
      (branchRows depth b).flatMap (·.line ++ ['\n']) := by
  obtain ⟨k, v⟩ := b
  cases hv : isNested v with
  | false =>
    have hrows := rows_of_not_isNested hv (depth + 1)
    simp [branchLines, branchRows, Row.line, Row.tail, indent, leafText?, hv, hrows]
  | true =>
    have hblock := ih (depth + 1) hv
    simp [branchLines, branchRows, Row.line, Row.tail, indent, leafText?, hv, hblock]

/-- The block of a value is written from its rows, each on a line. -/
lemma toList_block {v : Json} (h : isNested v = true) (depth : Nat) :
    (block false depth v).toList = (rows depth v).flatMap (·.line ++ ['\n']) := by
  induction v using induction_branches generalizing depth with
  | step v ih =>
    rw [block_of_isNested false depth h, String.toList_join, List.flatMap_map, rows_eq_flatMap,
      List.flatMap_assoc]
    refine List.flatMap_congr fun b hb => ?_
    exact toList_branchLines depth fun depth hnested => ih b hb hnested depth

/-- A letter, a digit or the underscore. Beyond ASCII every character that is not white space may
be a letter. -/
def isWordChar (c : Char) : Bool :=
  c.isAlphanum || c == '_' || (127 < c.toNat && !isSpace c)

/-- A word of letters, digits and underscores. -/
def IsWord (s : String) : Prop :=
  s ≠ "" ∧ s.toList.all isWordChar = true

/-- A text on one line that does not end in white space. -/
def IsOneLine (s : String) : Prop :=
  '\n' ∉ s.toList ∧ IsSolid s.toList

instance (s : String) : Decidable (IsOneLine s) :=
  inferInstanceAs (Decidable (_ ∧ _))

instance (s : String) : Decidable (IsWord s) :=
  inferInstanceAs (Decidable (_ ∧ _))

/-- A character of ASCII that is written and no white space. -/
def isVisible (c : Char) : Bool :=
  33 ≤ c.toNat && c.toNat ≤ 126

lemma isSpace_of_isVisible {c : Char} (h : isVisible c = true) : isSpace c = false := by
  simp only [isVisible, Bool.and_eq_true, decide_eq_true_eq] at h
  simp [isSpace]
  omega

lemma isOneLine_of_isVisible {s : String} (hne : s ≠ "")
    (h : s.toList.all isVisible = true) : IsOneLine s := by
  rw [List.all_eq_true] at h
  obtain ⟨front, c, hlast⟩ :=
    (List.eq_nil_or_concat s.toList).resolve_left (String.toList_eq_nil_iff.not.mpr hne)
  have hc := isSpace_of_isVisible (h c (by simp [hlast]))
  refine ⟨fun hmem => absurd (h _ hmem) (by decide), front, c, ?_, hc⟩
  rw [hlast, List.concat_eq_append]

lemma isOneLine_of_isNumeral {s : String} (h : Json.IsNumeral s) : IsOneLine s := by
  obtain ⟨hne, hchars⟩ := h
  refine isOneLine_of_isVisible hne (List.all_eq_true.mpr fun c hc => ?_)
  have hbounds := Json.toNat_of_isNumberChar (hchars c hc)
  simp only [isVisible, Bool.and_eq_true, decide_eq_true_eq]
  omega

/-- The row can be read back from its line. -/
structure Row.IsLegible (r : Row) : Prop where
  label : ∀ k, r.label = some k → IsWord k
  text : ∀ t, r.text = some t → IsOneLine t

/-- What is asked of a value whose lines are to be read back. -/
abbrev IsLegible (v : Json) : Prop :=
  v.Every IsWord IsOneLine fun _ => True

lemma isOneLine_leaf {v : Json} (h : IsLegible v) :
    IsOneLine (leaf false v) := by
  have hword : ∀ s ∈ ["none", "true", "false", "[]", "\x7b\x7d"], IsOneLine s := by
    have hvisible : ∀ s ∈ ["none", "true", "false", "[]", "\x7b\x7d"],
        s ≠ "" ∧ s.toList.all isVisible = true := by decide
    exact fun s hs => isOneLine_of_isVisible (hvisible s hs).1 (hvisible s hs).2
  cases h with
  | null => exact hword "none" (by simp)
  | bool b =>
    cases b with
    | false => exact hword "false" (by simp)
    | true => exact hword "true" (by simp)
  | number => exact isOneLine_of_isNumeral (Json.isNumeral_print _)
  | string hs => exact hs
  | array => exact hword "[]" (by simp)
  | object => exact hword "\x7b\x7d" (by simp)

lemma isLegible_rows {v : Json} (h : IsLegible v) (depth : Nat) :
    ∀ r ∈ rows depth v, r.IsLegible := by
  induction v using induction_branches generalizing depth with
  | step v ih =>
    rw [rows_eq_flatMap]
    intro r hr
    obtain ⟨b, hb, hmem⟩ := List.mem_flatMap.mp hr
    obtain ⟨hlabel, hvalue⟩ := every_of_mem_branches h hb
    rcases List.mem_cons.mp hmem with rfl | hlater
    · refine ⟨hlabel, fun t ht => ?_⟩
      cases hnested : isNested b.2 <;> simp [leafText?, hnested] at ht
      exact ht ▸ isOneLine_leaf hvalue
    · exact ih b hb hvalue (depth + 1) r hlater

section Legible

variable {r r' : Row}

lemma text_of_tail (h : r.tail = r'.tail) : r.text = r'.text := by
  unfold Row.tail at h
  cases htext : r.text <;> cases htext' : r'.text <;> simp_all [String.toList_inj]

lemma IsWord.ne_of_mem {s : String} (h : IsWord s) {c : Char} (hc : c ∈ s.toList) :
    c ≠ ' ' ∧ c ≠ '\n' ∧ c ≠ '-' ∧ c ≠ ':' := by
  have hword := List.all_eq_true.mp h.2 c hc
  refine ⟨?_, ?_, ?_, ?_⟩ <;> rintro rfl <;> revert hword <;> decide

lemma IsWord.head?_mark {k : String} (h : IsWord k) :
    ∃ c, (mark false (some k)).toList.head? = some c ∧ c ∈ k.toList := by
  obtain ⟨c, cs, hcons⟩ := List.exists_cons_of_ne_nil (String.toList_eq_nil_iff.not.mpr h.1)
  exact ⟨c, by simp [mark, paint, hcons], by simp [hcons]⟩

lemma IsWord.takeWhile_mark {k : String} (h : IsWord k) (cs : List Char) :
    ((mark false (some k)).toList ++ cs).takeWhile (· != ':') = k.toList := by
  have hkey : ∀ c ∈ k.toList, (c != ':') = true :=
    fun c hc => bne_iff_ne.mpr (h.ne_of_mem hc).2.2.2
  have htext : (mark false (some k)).toList ++ cs = k.toList ++ ':' :: cs := by
    simp [mark, paint]
  rw [htext, List.takeWhile_append_of_pos hkey, List.takeWhile_cons_of_neg (by decide),
    List.append_nil]

variable (h : r.IsLegible) (h' : r'.IsLegible)
include h

lemma exists_mark_cons : ∃ c cs, (mark false r.label).toList = c :: cs ∧ c ≠ ' ' := by
  cases hlabel : r.label with
  | none => exact ⟨'-', [], rfl, by decide⟩
  | some k =>
    have hk := h.label k hlabel
    obtain ⟨c, hhead, hc⟩ := hk.head?_mark
    obtain ⟨cs, hmark⟩ := List.head?_eq_some_iff.mp hhead
    exact ⟨c, cs, hmark, (hk.ne_of_mem hc).1⟩

/-- A line is indented by two spaces for each level of its depth, and by no more. -/
lemma takeWhile_line : r.line.takeWhile (· == ' ') = List.replicate (2 * r.depth) ' ' := by
  have hspaces : ∀ c ∈ List.replicate (2 * r.depth) ' ', (c == ' ') = true :=
    fun c hc => by rw [List.eq_of_mem_replicate hc]; rfl
  obtain ⟨c, cs, hmark, hc⟩ := exists_mark_cons h
  rw [Row.line, List.append_assoc, List.takeWhile_append_of_pos hspaces, hmark, List.cons_append,
    List.takeWhile_cons_of_neg (by simpa using hc), List.append_nil]

lemma newline_not_mem_line : '\n' ∉ r.line := by
  have hmark : '\n' ∉ (mark false r.label).toList := by
    cases hlabel : r.label with
    | none => decide
    | some k =>
      have hk := (h.label k hlabel).ne_of_mem (c := '\n')
      simp [mark, paint]
      exact fun hmem => absurd rfl (hk hmem).2.1
  have htail : '\n' ∉ r.tail := by
    unfold Row.tail
    cases htext : r.text with
    | none => exact List.not_mem_nil
    | some t => simpa using (h.text t htext).1
  have hspaces : '\n' ∉ List.replicate (2 * r.depth) ' ' :=
    fun hmem => absurd (List.eq_of_mem_replicate hmem) (by decide)
  simp [Row.line, hspaces, hmark, htail]

omit h

/-- An entry does not begin as an item does. -/
lemma mark_none_append_ne {k : String} (hk : IsWord k) (cs ds : List Char) :
    (mark false none).toList ++ cs ≠ (mark false (some k)).toList ++ ds := by
  intro heq
  obtain ⟨c, hhead, hc⟩ := hk.head?_mark
  obtain ⟨rest, hmark⟩ := List.head?_eq_some_iff.mp hhead
  rw [hmark] at heq
  exact (hk.ne_of_mem hc).2.2.1 (List.cons.inj heq).1.symm

include h h'

lemma label_and_tail_of_mark (heq : (mark false r.label).toList ++ r.tail =
    (mark false r'.label).toList ++ r'.tail) : r.label = r'.label ∧ r.tail = r'.tail := by
  have hlabel : r.label = r'.label := by
    cases hlabel : r.label with
    | none =>
      cases hlabel' : r'.label with
      | none => rfl
      | some k =>
        rw [hlabel, hlabel'] at heq
        exact absurd heq (mark_none_append_ne (h'.label k hlabel') _ _)
    | some k =>
      have hk := h.label k hlabel
      cases hlabel' : r'.label with
      | none =>
        rw [hlabel, hlabel'] at heq
        exact absurd heq.symm (mark_none_append_ne hk _ _)
      | some l =>
        rw [hlabel, hlabel'] at heq
        have hkey := congrArg (List.takeWhile (· != ':')) heq
        rw [hk.takeWhile_mark, (h'.label l hlabel').takeWhile_mark, String.toList_inj] at hkey
        exact congrArg some hkey
  rw [hlabel] at heq
  exact ⟨hlabel, List.append_cancel_left heq⟩

/-- A row is told by its line. -/
lemma eq_of_line (heq : r.line = r'.line) : r = r' := by
  have hspaces := congrArg (List.takeWhile (· == ' ')) heq
  rw [takeWhile_line h, takeWhile_line h', List.replicate_inj] at hspaces
  have hdepth : r.depth = r'.depth := by omega
  rw [Row.line, Row.line, List.append_assoc, List.append_assoc, hdepth] at heq
  obtain ⟨hlabel, htail⟩ := label_and_tail_of_mark h h' (List.append_cancel_left heq)
  exact Row.ext hdepth hlabel (text_of_tail htail)

end Legible

lemma eq_of_map_line {rs rs' : List Row} (h : ∀ r ∈ rs, r.IsLegible) (h' : ∀ r ∈ rs', r.IsLegible)
    (heq : rs.map Row.line = rs'.map Row.line) : rs = rs' := by
  induction rs generalizing rs' with
  | nil => exact (List.map_eq_nil_iff.mp heq.symm).symm
  | cons r rs ih =>
    cases rs' with
    | nil => cases heq
    | cons r' rs' =>
      obtain ⟨hr, hrs⟩ := List.forall_mem_cons.mp h
      obtain ⟨hr', hrs'⟩ := List.forall_mem_cons.mp h'
      obtain ⟨hline, hlines⟩ := List.cons.inj heq
      rw [eq_of_line hr hr' hline, ih hrs hrs' hlines]

/-- The last row of a value is that of an entry or item that holds nothing. -/
lemma exists_last_row {v : Json} (h : isNested v = true) (depth : Nat) :
    ∃ front r t, rows depth v = front ++ [r] ∧ r.text = some t := by
  induction v using induction_branches generalizing depth with
  | step v ih =>
    obtain ⟨bs, b, hlast⟩ := (List.eq_nil_or_concat (branches v)).resolve_left (isNested_iff.mp h)
    rw [List.concat_eq_append] at hlast
    have hrows : rows depth v = bs.flatMap (branchRows depth) ++ branchRows depth b := by
      rw [rows_eq_flatMap, hlast, List.flatMap_append, List.flatMap_singleton]
    rw [hrows, branchRows]
    cases hb : isNested b.2 with
    | false =>
      refine ⟨bs.flatMap (branchRows depth), ⟨depth, b.1, leafText? b.2⟩, leaf false b.2, ?_, ?_⟩
      · rw [rows_of_not_isNested hb]
      · simp [leafText?, hb]
    | true =>
      obtain ⟨front, r, t, hfront, ht⟩ := ih b (by simp [hlast]) hb (depth + 1)
      refine ⟨bs.flatMap (branchRows depth) ++ ⟨depth, b.1, leafText? b.2⟩ :: front, r, t, ?_, ht⟩
      rw [hfront, List.append_assoc, List.cons_append]

lemma isSolid_line {r : Row} (h : r.IsLegible) {t : String} (ht : r.text = some t) :
    IsSolid r.line := by
  have htail : r.tail = [' '] ++ t.toList := by rw [Row.tail, ht]; rfl
  rw [Row.line, htail]
  exact ((h.text t ht).2.append _).append _

lemma isNested_sorted {v : Json} (h : isNested v = true) : isNested v.sorted = true := by
  cases v with
  | object es =>
    cases es with
    | nil => cases h
    | cons e es =>
      have hne := Json.sortedEntries_ne_nil (Json.putSorted_ne_nil e.1 e.2.sorted []) es
      simpa [isNested, Json.sorted, Json.sortedEntries] using hne
  | array vs =>
    cases vs with
    | nil => cases h
    | cons v vs => rfl
  | _ => cases h

/-- The lines of a text for people are those of the rows of the value. -/
lemma splitOn_pretty {v : Json} (h : IsLegible v) (hv : isNested v = true) :
    (pretty false v).toList.splitOn '\n' = (rows 0 v.sorted).map Row.line := by
  have hlegible := isLegible_rows h.sorted 0
  -- The last line ends in a text, so the trimming takes off no more than the last line break.
  obtain ⟨front, r, t, hrows, ht⟩ := exists_last_row (isNested_sorted hv) 0
  rw [hrows, List.forall_mem_append, List.forall_mem_singleton] at hlegible
  have htext : (block false 0 v.sorted).toList =
      ((front.map Row.line).flatMap (· ++ ['\n']) ++ r.line) ++ ['\n'] := by
    rw [toList_block (isNested_sorted hv), hrows, List.flatMap_append, List.flatMap_singleton,
      List.flatMap_map, List.append_assoc]
  have hsolid := (isSolid_line hlegible.2 ht).append ((front.map Row.line).flatMap (· ++ ['\n']))
  have htrim : trimEnd (block false 0 v.sorted).toList =
      (front.map Row.line).flatMap (· ++ ['\n']) ++ r.line :=
    htext ▸ hsolid.trimEnd_append (List.forall_mem_singleton.mpr rfl)
  rw [pretty, String.toList_ofList, htrim, hrows, List.map_append, List.map_singleton]
  refine splitOn_flatMap_append (List.forall_mem_map.mpr fun r hr => ?_)
    (newline_not_mem_line hlegible.2)
  exact newline_not_mem_line (hlegible.1 r hr)

lemma rows_inj {v w : Json} (hv : isNested v = true) (hw : isNested w = true) {depth : Nat}
    (h : rows depth v = rows depth w) : tree v = tree w := by
  have hends : Ends depth [] := nofun
  exact (tellsTree v w depth [] [] hv hw hends hends (congrArg (· ++ []) h)).1

/-- Two values whose texts for people are equal have, their entries sorted, the same tree: the same
nesting of objects and arrays, the same keys, and the same texts of what holds nothing. The text has
one line for each entry and item at all depths, indented by two spaces for each level. -/
theorem pretty_tells_tree {v w : Json} (hv : IsLegible v) (hw : IsLegible w)
    (hv' : isNested v = true) (hw' : isNested w = true) :
    (pretty false v = pretty false w → tree v.sorted = tree w.sorted) ∧
    (pretty false v).toList.splitOn '\n' = (rows 0 v.sorted).map Row.line ∧
    ∀ r ∈ rows 0 v.sorted, r.line.takeWhile (· == ' ') = List.replicate (2 * r.depth) ' ' := by
  -- Equal texts have equal lines, equal lines are those of equal rows, and rows tell the tree.
  have hrows := isLegible_rows hv.sorted 0
  refine ⟨fun heq => ?_, splitOn_pretty hv hv', fun r hr => takeWhile_line (hrows r hr)⟩
  have hlines : (rows 0 v.sorted).map Row.line = (rows 0 w.sorted).map Row.line := by
    rw [← splitOn_pretty hv hv', ← splitOn_pretty hw hw', heq]
  exact rows_inj (isNested_sorted hv') (isNested_sorted hw')
    (eq_of_map_line hrows (isLegible_rows hw.sorted 0) hlines)

/-- A report with a null, an empty array and strings that look like lines. -/
def mixedReport : Json :=
  .object [("rows", .array [.null, .object [("x_1", .string " a: b")], .array []]),
    ("name", .string "- c")]

/-- A report with strings in the place of the null and of the empty array. -/
def wordyReport : Json :=
  .object [("name", .string "- c"),
    ("rows", .array [.string "none", .object [("x_1", .string " a: b")], .string "[]"])]

lemma isLegible_mixedReport : IsLegible mixedReport := by
  refine .object (by decide) ?_
  simp only [List.forall_mem_cons]
  refine ⟨.array ?_, .string (by decide), nofun⟩
  simp only [List.forall_mem_cons]
  refine ⟨.null, .object (by decide) ?_, .array nofun, nofun⟩
  rw [List.forall_mem_singleton]
  exact .string (by decide)

lemma isLegible_wordyReport : IsLegible wordyReport := by
  refine .object (by decide) ?_
  simp only [List.forall_mem_cons]
  refine ⟨.string (by decide), .array ?_, nofun⟩
  simp only [List.forall_mem_cons]
  refine ⟨.string (by decide), .object (by decide) ?_, .string (by decide), nofun⟩
  rw [List.forall_mem_singleton]
  exact .string (by decide)

/-- A null and the word for it are written alike, and so are an empty array and its text: the trees
are the same. -/
theorem pretty_tells_tree_mixedReport : IsLegible mixedReport ∧ IsLegible wordyReport ∧
    isNested mixedReport = true ∧ isNested wordyReport = true ∧
    pretty false mixedReport = pretty false wordyReport ∧
    tree mixedReport.sorted = tree wordyReport.sorted ∧
    (pretty false mixedReport).toList.splitOn '\n' =
      (rows 0 mixedReport.sorted).map Row.line := by
  have heq : pretty false mixedReport = pretty false wordyReport := by cbv
  obtain ⟨htree, hlines, -⟩ :=
    pretty_tells_tree isLegible_mixedReport isLegible_wordyReport rfl rfl
  exact ⟨isLegible_mixedReport, isLegible_wordyReport, rfl, rfl, heq, htree heq, hlines⟩

end SchemaClient.Report
