import Mathlib
import SchemaClient.Proofs.DocComment
import SchemaClient.Schema.Item
import SchemaClient.Text.Replace

/-!
# Documentation stays in its comment

The comment of a documentation text ends where it is written to end: no line of the text, however it
is broken, trimmed and put behind its asterisk, brings in a terminator of its own.
-/

namespace SchemaClient.Code.Comment
open SchemaClient.Text

/-! ### Terminators -/

/-- No comment terminator stands in the text. -/
def IsHarmless (cs : List Char) : Prop :=
  ¬['*', '/'] <:+: cs

instance (cs : List Char) : Decidable (IsHarmless cs) :=
  inferInstanceAs (Decidable ¬_)

/-- Behind a text without the word, the word begins at the earliest behind a character that is not
in it. -/
lemma exists_of_append_cons {word front back xs ys : List Char} {c : Char} (hc : c ∉ word)
    (hne : word ≠ []) (hfront : ¬word <:+: front) (h : front ++ c :: back = xs ++ word ++ ys) :
    ∃ zs, xs = front ++ c :: zs ∧ back = zs ++ word ++ ys := by
  rw [List.append_assoc, List.append_eq_append_iff] at h
  rcases h with ⟨zs, rfl, hzs⟩ | ⟨zs, rfl, hzs⟩
  · cases zs with
    | nil =>
      obtain ⟨d, word, rfl⟩ := List.exists_cons_of_ne_nil hne
      obtain rfl := (List.cons.inj hzs).1
      exact absurd List.mem_cons_self hc
    | cons d zs =>
      obtain ⟨rfl, hback⟩ := List.cons.inj hzs
      exact ⟨zs, rfl, by rw [hback, List.append_assoc]; rfl⟩
  · rw [List.append_eq_append_iff] at hzs
    rcases hzs with ⟨us, rfl, -⟩ | ⟨us, rfl, hus⟩
    · exact absurd ⟨xs, us, List.append_assoc ..⟩ hfront
    -- The word would reach over the end of `front`, so it would hold `c`.
    · cases us with
      | nil => exact absurd ⟨xs, [], by simp⟩ hfront
      | cons d us =>
        obtain rfl := (List.cons.inj hus).1
        exact absurd (by simp) hc

namespace IsHarmless

lemma append_cons {front back : List Char} {c : Char} (hfront : IsHarmless front)
    (hback : IsHarmless back) (hc : c ∉ ['*', '/']) : IsHarmless (front ++ c :: back) := by
  rintro ⟨xs, ys, heq⟩
  obtain ⟨zs, -, hzs⟩ := exists_of_append_cons hc (List.cons_ne_nil _ _) hfront heq.symm
  exact hback ⟨zs, ys, hzs.symm⟩

lemma append {front back : List Char} (hfront : '*' ∉ front) (hback : IsHarmless back) :
    IsHarmless (front ++ back) := by
  induction front with
  | nil => exact hback
  | cons c front ih =>
    obtain ⟨hc, hrest⟩ := not_or.mp (List.mem_cons.not.mp hfront)
    intro hinner
    rcases List.infix_cons_iff.mp hinner with hbegins | hlater
    · exact hc (List.cons_prefix_cons.mp hbegins).1
    · exact ih hrest hlater

end IsHarmless

lemma head?_disarm (cs : List Char) : (disarm cs).head? = cs.head? := by
  fun_cases disarm cs <;> simp

lemma isHarmless_disarm (cs : List Char) : IsHarmless (disarm cs) := by
  fun_induction disarm cs with
  | case1 cs ih =>
    have hstar : IsHarmless ['*'] := by decide
    have hslash : IsHarmless (['/'] ++ disarm cs) := ih.append (by decide)
    exact hstar.append_cons hslash (by decide)
  | case2 c cs hpair ih =>
    intro hinner
    rcases List.infix_cons_iff.mp hinner with hbegins | hlater
    -- A slash behind the star would stand there in the text already.
    · obtain ⟨rfl, hrest⟩ := List.cons_prefix_cons.mp hbegins
      obtain ⟨rest, hrest⟩ := hrest
      have hhead : cs.head? = some '/' := by
        rw [← head?_disarm, ← hrest]
        rfl
      obtain ⟨ds, rfl⟩ := List.head?_eq_some_iff.mp hhead
      exact hpair ds rfl rfl
    · exact ih hlater
  | case3 => decide

/-- The text with a backslash in every comment terminator. -/
def escaped (cs : List Char) : List Char :=
  replaceAll ['*', '/'] ['*', '\\', '/'] cs

lemma disarm_eq_escaped (cs : List Char) : disarm cs = escaped cs := by
  fun_induction disarm cs with
  | case1 cs ih =>
    have hpair : escaped (['*', '/'] ++ cs) = ['*', '\\', '/'] ++ escaped cs :=
      replaceAll_append (List.cons_ne_nil _ _) cs
    rw [ih]
    exact hpair.symm
  | case2 c cs hpair ih =>
    rw [ih, escaped, escaped, replaceAll_cons_of_not_prefix]
    rintro ⟨rest, hrest⟩
    obtain ⟨rfl, htail⟩ := List.cons.inj hrest
    exact hpair rest rfl htail.symm
  | case3 => rw [escaped, replaceAll_nil]

lemma isSolid_disarm {cs : List Char} (h : IsSolid cs) : IsSolid (disarm cs) := by
  fun_induction disarm cs with
  | case1 cs ih =>
    cases cs with
    | nil => exact ⟨['*', '\\'], '/', rfl, by decide⟩
    | cons c cs =>
      have hrest : IsSolid (c :: cs) := h.of_append ['*', '/'] (List.cons_ne_nil _ _)
      exact (ih hrest).append ['*', '\\', '/']
  | case2 c cs hpair ih =>
    cases cs with
    | nil => exact h
    | cons d cs =>
      have hrest : IsSolid (d :: cs) := h.of_append [c] (List.cons_ne_nil _ _)
      exact (ih hrest).append [c]
  | case3 => exact h

lemma disarm_append_spaces (cs : List Char) {back : List Char}
    (hback : ∀ c ∈ back, isSpace c = true) : disarm (cs ++ back) = disarm cs ++ back := by
  have hne : ∀ x, isSpace x = false → x ∉ back := by
    intro x hx hmem
    rw [hback x hmem] at hx
    cases hx
  have hstar := hne '*' (by decide)
  cases back with
  | nil => rw [List.append_nil, List.append_nil]
  | cons c back =>
    have hslash : c ≠ '/' := fun hc => hne '/' (by decide) (hc ▸ List.mem_cons_self)
    obtain ⟨hc, hrest⟩ := not_or.mp (List.mem_cons.not.mp hstar)
    have hdisarm := disarm_append hrest []
    rw [List.append_nil, disarm, List.append_nil] at hdisarm
    rw [disarm_append_cons hslash (Ne.symm hc), hdisarm]

/-- White space at the end of a text takes no part in a terminator. -/
lemma trimEnd_disarm (cs : List Char) : trimEnd (disarm cs) = disarm (trimEnd cs) := by
  obtain ⟨back, heq, hback⟩ := eq_trimEnd_append cs
  have hsplit : disarm cs = disarm (trimEnd cs) ++ back := by
    rw [← disarm_append_spaces _ hback, ← heq]
  rw [hsplit]
  by_cases hnil : trimEnd cs = []
  · rw [hnil, disarm, List.nil_append]
    exact trimEnd_eq_nil_iff.mpr hback
  · exact (isSolid_disarm (isSolid_trimEnd hnil)).trimEnd_append hback

/-! ### Lines -/

lemma mem_disarm_iff {x : Char} (hx : x ≠ '\\') {cs : List Char} : x ∈ disarm cs ↔ x ∈ cs := by
  fun_induction disarm cs with
  | case1 cs ih => simp [ih, hx]
  | case2 c cs _ ih => simp [ih]
  | case3 => rfl

lemma splitOn_disarm (cs : List Char) :
    (disarm cs).splitOn '\n' = (cs.splitOn '\n').map disarm := by
  have hkept : ∀ {l : List Char}, '\n' ∉ l → '\n' ∉ disarm l :=
    fun hl hmem => hl ((mem_disarm_iff (by decide)).mp hmem)
  induction cs using induction_lines with
  | single cs h =>
    rw [List.splitOn_eq_singleton h, List.splitOn_eq_singleton (hkept h)]
    rfl
  | next l cs h ih =>
    rw [disarm_append_cons (by decide) (by decide), List.splitOn_append_cons_self_of_not_mem h,
      List.splitOn_append_cons_self_of_not_mem (hkept h), ih, List.map_cons]

lemma lines_of_isSolid {cs : List Char} (h : IsSolid cs) : lines cs = cs.splitOn '\n' := by
  rw [lines]
  exact if_neg (getLast?_splitOn h)

lemma lines_flatMap {ls : List (List Char)} (h : ∀ l ∈ ls, '\n' ∉ l) :
    lines (ls.flatMap (· ++ ['\n'])) = ls := by
  have hsplit := splitOn_flatMap_append h List.not_mem_nil
  rw [List.append_nil] at hsplit
  rw [lines, hsplit, if_pos List.getLast?_concat, List.dropLast_concat]

/-! ### Blocks -/

/-- What a line of a documentation text is written as behind the indentation. -/
def starred (l : List Char) : List Char :=
  match trimEnd l with
  | [] => " *".toList
  | cs => " * ".toList ++ escaped cs

/-- The lines of a block comment for a documentation text. -/
def blockLines (indent doc : List Char) : List (List Char) :=
  if '\n' ∈ doc then
    (indent ++ "/**".toList) :: (lines doc).map (indent ++ starred ·) ++ [indent ++ " */".toList]
  else [indent ++ "/** ".toList ++ escaped doc ++ " */".toList]

lemma toList_line (indent : String) (l : List Char) :
    (line indent (disarm l)).toList = indent.toList ++ starred l ++ ['\n'] := by
  rw [line, starred, trimEnd_disarm]
  cases htrim : trimEnd l with
  | nil => simp [disarm]
  | cons c cs =>
    obtain ⟨d, ds, hcons⟩ : ∃ d ds, disarm (c :: cs) = d :: ds := by
      have hhead := head?_disarm (c :: cs)
      rw [List.head?_cons, List.head?_eq_some_iff] at hhead
      obtain ⟨ds, hds⟩ := hhead
      exact ⟨c, ds, hds⟩
    simp [← disarm_eq_escaped, hcons]

lemma toList_block (indent : String) {doc : String} (h : IsSolid doc.toList) :
    (block indent doc).toList =
      (blockLines indent.toList doc.toList).flatMap (· ++ ['\n']) := by
  have hkept : (disarm doc.toList).contains '\n' = true ↔ '\n' ∈ doc.toList := by
    rw [List.contains_iff_mem, mem_disarm_iff (by decide)]
  rw [block, blockLines]
  by_cases hmem : '\n' ∈ doc.toList
  · have hlines : lines (disarm doc.toList) = (lines doc.toList).map disarm := by
      rw [lines_of_isSolid (isSolid_disarm h), splitOn_disarm, lines_of_isSolid h]
    simp only [hkept.mpr hmem, if_pos hmem, if_true, hlines]
    simp [String.toList_join, List.flatMap_map, toList_line]
  · simp only [hkept.not.mpr hmem, if_neg hmem]
    simp [disarm_eq_escaped]

lemma not_mem_escaped {x : Char} (hx : x ≠ '\\') {cs : List Char} (h : x ∉ cs) :
    x ∉ escaped cs := by
  rwa [← disarm_eq_escaped, mem_disarm_iff hx]

lemma not_mem_starred {x : Char} (hx : x ≠ '\\') (hbegins : x ∉ " * ".toList) {l : List Char}
    (h : x ∉ l) : x ∉ starred l := by
  obtain ⟨back, heq, -⟩ := eq_trimEnd_append l
  have htrim : x ∉ trimEnd l := fun hmem => h (heq ▸ List.mem_append_left back hmem)
  rw [starred]
  split
  · exact fun hmem => hbegins (List.mem_append_left [' '] hmem)
  · exact fun hmem => (List.mem_append.mp hmem).elim hbegins (not_mem_escaped hx htrim)

lemma not_mem_of_mem_lines {l cs : List Char} (hl : l ∈ lines cs) : '\n' ∉ l := by
  rw [lines] at hl
  split at hl
  · exact not_mem_of_mem_splitOn (List.dropLast_subset _ hl)
  · exact not_mem_of_mem_splitOn hl

lemma isSolid_starred (l : List Char) : IsSolid (starred l) := by
  rw [starred]
  split
  · exact ⟨[' '], '*', rfl, by decide⟩
  · next hne =>
    rw [← disarm_eq_escaped]
    exact (isSolid_disarm (isSolid_trimEnd hne)).append _

lemma isHarmless_starred (l : List Char) : IsHarmless (starred l) := by
  rw [starred]
  split
  · decide
  · rw [← disarm_eq_escaped]
    have hfront : IsHarmless [' ', '*'] := by decide
    exact hfront.append_cons (isHarmless_disarm _) (by decide)

lemma isHarmless_flatMap {ls : List (List Char)} (h : ∀ l ∈ ls, IsHarmless l) {cs : List Char}
    (hcs : IsHarmless cs) : IsHarmless (ls.flatMap (· ++ ['\n']) ++ cs) := by
  induction ls with
  | nil => exact hcs
  | cons l ls ih =>
    obtain ⟨hl, hls⟩ := List.forall_mem_cons.mp h
    rw [List.flatMap_cons, List.append_assoc, List.append_assoc, List.singleton_append]
    exact hl.append_cons (ih hls) (by decide)

/-- The comment starts and ends as a comment does and does not end earlier, and a text with several
lines stands in it line by line. -/
structure Encloses (indent doc comment : String) : Prop where
  start : (indent ++ "/**").toList <+: comment.toList
  stop : ∃ front, comment.toList = front ++ "*/\n".toList ∧
    ∀ xs ys, comment.toList = xs ++ "*/".toList ++ ys → xs = front
  indented : ∀ l ∈ lines comment.toList, indent.toList <+: l
  solid : ∀ l ∈ lines comment.toList, IsSolid l
  length : '\n' ∈ doc.toList →
    (lines comment.toList).length = doc.toList.count '\n' + 3
  line : '\n' ∈ doc.toList → ∀ i l, (doc.toList.splitOn '\n')[i]? = some l →
    (lines comment.toList)[i + 1]? = some (indent.toList ++ starred l)

lemma prefix_block (indent : String) {doc : String} (h : IsSolid doc.toList) :
    (indent ++ "/**").toList <+: (block indent doc).toList := by
  rw [toList_block indent h, blockLines]
  split <;> simp

section Block

variable {indent doc : String} (hindent : ∀ c ∈ indent.toList, c = ' ') (h : IsSolid doc.toList)
include hindent

lemma newline_not_mem_blockLines :
    ∀ l ∈ blockLines indent.toList doc.toList, '\n' ∉ l := by
  have hnewline : '\n' ∉ indent.toList := fun hmem => absurd (hindent _ hmem) (by decide)
  rw [blockLines]
  split
  · simp only [List.cons_append, List.forall_mem_cons, List.forall_mem_append, List.forall_mem_map]
    refine ⟨by simp [hnewline], fun l hl => ?_, by simp [hnewline]⟩
    have hstarred := not_mem_starred (by decide) (by decide) (not_mem_of_mem_lines hl)
    simp [hnewline, hstarred]
  · next hline =>
    have hescaped : '\n' ∉ escaped doc.toList := not_mem_escaped (by decide) hline
    simp [hnewline, hescaped]

include h

lemma lines_block : lines (block indent doc).toList = blockLines indent.toList doc.toList := by
  rw [toList_block indent h, lines_flatMap (newline_not_mem_blockLines hindent)]

/-- Up to the blank in front of the terminator that closes it the block holds none. -/
lemma exists_harmless_block : ∃ body, IsHarmless body ∧
    (block indent doc).toList = body ++ ' ' :: "*/\n".toList := by
  have hstar : '*' ∉ indent.toList := fun hmem => absurd (hindent _ hmem) (by decide)
  have hopening : IsHarmless (indent.toList ++ "/**".toList) :=
    IsHarmless.append hstar (by decide)
  rw [toList_block indent h, blockLines]
  split
  · refine ⟨((indent.toList ++ "/**".toList) ::
      (lines doc.toList).map (indent.toList ++ starred ·)).flatMap (· ++ ['\n']) ++ indent.toList,
      ?_, by simp⟩
    have hlast : IsHarmless (indent.toList ++ []) := IsHarmless.append hstar (by decide)
    rw [List.append_nil] at hlast
    refine isHarmless_flatMap (List.forall_mem_cons.mpr ⟨hopening, ?_⟩) hlast
    intro l hl
    obtain ⟨k, -, rfl⟩ := List.mem_map.mp hl
    exact IsHarmless.append hstar (isHarmless_starred k)
  · refine ⟨indent.toList ++ "/**".toList ++ ' ' :: escaped doc.toList, ?_, by simp⟩
    rw [← disarm_eq_escaped]
    exact hopening.append_cons (isHarmless_disarm _) (by decide)

lemma indented_block : ∀ l ∈ lines (block indent doc).toList, indent.toList <+: l := by
  rw [lines_block hindent h, blockLines]
  split
  · simp only [List.cons_append, List.forall_mem_cons, List.forall_mem_append, List.forall_mem_map]
    simp
  · simp

lemma solid_block : ∀ l ∈ lines (block indent doc).toList, IsSolid l := by
  have hopening : IsSolid (indent.toList ++ "/**".toList) :=
    IsSolid.append ⟨['/', '*'], '*', rfl, by decide⟩ _
  have hclosing : IsSolid " */".toList := ⟨[' ', '*'], '/', rfl, by decide⟩
  rw [lines_block hindent h, blockLines]
  split
  · simp only [List.cons_append, List.forall_mem_cons, List.forall_mem_append, List.forall_mem_map]
    refine ⟨hopening, fun l _ => (isSolid_starred l).append _, ?_⟩
    simpa using hclosing.append indent.toList
  · simpa using hclosing.append (indent.toList ++ "/** ".toList ++ escaped doc.toList)

lemma encloses_block : Encloses indent doc (block indent doc) where
  start := prefix_block indent h
  stop := by
    obtain ⟨body, hbody, heq⟩ := exists_harmless_block hindent h
    refine ⟨body ++ [' '], by simp [heq], ?_⟩
    intro xs ys hxs
    rw [heq] at hxs
    obtain ⟨zs, rfl, hzs⟩ := exists_of_append_cons (by decide) (by decide) hbody hxs
    have hlength := congrArg List.length hzs
    cases zs with
    | nil => rfl
    | cons z zs =>
      cases zs with
      | nil => simp at hzs
      | cons y zs =>
        simp at hlength
        omega
  indented := indented_block hindent h
  solid := solid_block hindent h
  length hline := by
    rw [lines_block hindent h, blockLines, if_pos hline, lines_of_isSolid h]
    simp [length_splitOn]
  line hline i l hl := by
    have hmapped : ((doc.toList.splitOn '\n').map (indent.toList ++ starred ·))[i]? =
        some (indent.toList ++ starred l) := by
      rw [List.getElem?_map, hl, Option.map_some]
    obtain ⟨hlt, -⟩ := List.getElem?_eq_some_iff.mp hmapped
    rw [lines_block hindent h, blockLines, if_pos hline, lines_of_isSolid h, List.cons_append,
      List.getElem?_cons_succ, List.getElem?_append_left hlt, hmapped]

end Block

end SchemaClient.Code.Comment

namespace SchemaClient.Client.Doc
open SchemaClient.Text SchemaClient.Code SchemaClient.Schema

lemma trim_eq_nil_iff {cs : List Char} : trim cs = [] ↔ ∀ c ∈ cs, isSpace c = true := by
  have hsplit := List.takeWhile_append_dropWhile (p := fun c => c == '\n' || c == '\r') (l := cs)
  have hbreak : ∀ c ∈ cs.takeWhile (fun c => c == '\n' || c == '\r'), isSpace c = true := by
    intro c hc
    have hc := List.mem_takeWhile_imp hc
    rcases Bool.or_eq_true_iff.mp hc with hc | hc
    · exact (beq_iff_eq.mp hc) ▸ by decide
    · exact (beq_iff_eq.mp hc) ▸ by decide
  rw [trim, trimEnd_eq_nil_iff]
  constructor
  · intro h c hc
    rw [← hsplit] at hc
    exact (List.mem_append.mp hc).elim (hbreak c) (h c)
  · exact fun h c hc => h c ((List.dropWhile_sublist _).subset hc)

lemma render_eq_none_iff (routes : List String) (doc : String) :
    render routes doc = none ↔ ∀ c ∈ doc.toList, isSpace c = true := by
  rw [← trim_eq_nil_iff, render]
  split
  · next hnil => simp [hnil]
  · next hne => simpa using hne

lemma eq_of_link? {cs t rest : List Char} (h : link? cs = some (t, rest)) :
    cs = '[' :: '\x60' :: (t ++ '\x60' :: ']' :: rest) := by
  obtain ⟨ds, hds, ht⟩ := Option.bind_eq_some_iff.mp h
  obtain ⟨-, rfl⟩ := isTarget_of_target? ht
  unfold afterStart? at hds
  split at hds
  · rw [Option.some.inj hds]
  · cases hds

/-- A text that is solid stays so when its links are resolved: a link at its end ends in a brace. -/
lemma isSolid_resolveLinks (rename : List Char → List Char) {cs : List Char} (h : IsSolid cs) :
    IsSolid (resolveLinks rename cs) := by
  have hnil : resolveLinks rename [] = [] := by rw [resolveLinks]
  fun_induction resolveLinks rename cs with
  | case1 => exact h
  | case2 c cs t rest hlink ih =>
    by_cases hrest : rest = []
    · rw [hrest, hnil]
      exact ⟨_, '\x7d', rfl, by decide⟩
    · have hsplit : c :: cs = ('[' :: '\x60' :: (t ++ ['\x60', ']'])) ++ rest := by
        simp [eq_of_link? hlink]
      have hsolid := ih (IsSolid.of_append _ (hsplit ▸ h) hrest)
      have hresolved := hsolid.append ("\x7b@link ".toList ++ rename t ++ ['\x7d'])
      rwa [List.append_assoc, List.singleton_append] at hresolved
  | case3 c cs hlink ih =>
    cases cs with
    | nil => rwa [hnil]
    | cons d cs =>
      have hrest : IsSolid (d :: cs) := h.of_append [c] (List.cons_ne_nil _ _)
      exact (ih hrest).append [c]

lemma isSolid_of_render {routes : List String} {doc text : String}
    (h : render routes doc = some text) : IsSolid text.toList := by
  rw [render] at h
  split at h
  · cases h
  · next hne =>
    obtain rfl := Option.some.inj h
    rw [String.toList_ofList]
    exact isSolid_resolveLinks _ (isSolid_trimEnd hne)

/-- A text is documented unless it is blank, and what is written for it is enclosed in its comment,
at every indentation. -/
theorem encloses_block_render (routes : List String) (doc : String) (width : Nat) :
    let indent := String.ofList (List.replicate width ' ')
    (render routes doc = none ↔ ∀ c ∈ doc.toList, isSpace c = true) ∧
      (∀ i : Item, i.doc? = none ↔ render routes i.doc = none) ∧
      ∀ text, render routes doc = some text →
        Comment.Encloses indent text (Comment.block indent text) := by
  intro indent
  have hindent : ∀ c ∈ indent.toList, c = ' ' := by
    intro c hc
    rw [String.toList_ofList] at hc
    exact List.eq_of_mem_replicate hc
  refine ⟨render_eq_none_iff routes doc, ?_,
    fun text h => Comment.encloses_block hindent (isSolid_of_render h)⟩
  intro i
  rw [render_eq_none_iff, Item.doc?]
  simp [Text.isBlank]

theorem encloses_block_render_terminators :
    let text := "Stops */ here  \r\n \n  /\x7b@link getUser\x7d**//"
    render ["get_user"] "\nStops */ here  \r\n \n  /[`get_user`]**//\t " = some text ∧
      Comment.block "  " text =
        "  /**\n   * Stops *\\/ here\n   *\n   *   /\x7b@link getUser\x7d**\\//\n   */\n" ∧
      Comment.Encloses "  " text (Comment.block "  " text) := by
  intro text
  have hrender : render ["get_user"] "\nStops */ here  \r\n \n  /[`get_user`]**//\t " =
      some text := by
    cbv
  have hblock : Comment.block "  " text =
      "  /**\n   * Stops *\\/ here\n   *\n   *   /\x7b@link getUser\x7d**\\//\n   */\n" := by
    cbv
  have hindent : String.ofList (List.replicate 2 ' ') = "  " := rfl
  have hencloses := (encloses_block_render ["get_user"]
    "\nStops */ here  \r\n \n  /[`get_user`]**//\t " 2).2.2 text hrender
  rw [hindent] at hencloses
  exact ⟨hrender, hblock, hencloses⟩

end SchemaClient.Client.Doc
