import Mathlib
import SchemaClient.Proofs.DocComment

/-!
# Documentation texts as pieces and links

A documentation text that is put together from plain pieces and links is resolved link by link.
The pieces are kept as they are, whatever brackets and backticks they hold.
-/

namespace SchemaClient.Client.Doc
open SchemaClient.Text

/-- A plain piece and a row of links, each given by its target and the plain piece behind it. -/
structure LinkedText where
  front : String
  links : List (String × String)

namespace LinkedText

def text (d : LinkedText) : String :=
  d.front ++ String.join (d.links.map fun l => "[`" ++ l.1 ++ "`]" ++ l.2)

/-- The text with each link written inline, in the place where it stands. -/
def resolved (routes : List String) (d : LinkedText) : String :=
  d.front ++ String.join (d.links.map fun l => inlineLink (linkTarget routes l.1) ++ l.2)

/-- No link begins in a plain piece, and each target reaches up to the end of its link. -/
structure IsPieced (d : LinkedText) : Prop where
  front : ¬Occurs "[`" d.front
  target : ∀ l ∈ d.links, IsTarget l.1.toList
  behind : ∀ l ∈ d.links, ¬Occurs "[`" l.2

/-- The text begins with no line break and ends in no white space. -/
structure IsTrimmed (d : LinkedText) : Prop where
  start : ∀ c ∈ d.text.toList.head?, c ≠ '\n' ∧ c ≠ '\r'
  stop : ∀ c ∈ d.text.toList.getLast?, isSpace c = false

lemma IsPieced.tail {front name behind : String} {links : List (String × String)}
    (h : IsPieced ⟨front, (name, behind) :: links⟩) : IsPieced ⟨behind, links⟩ where
  front := h.behind (name, behind) List.mem_cons_self
  target l hl := h.target l (List.mem_cons_of_mem _ hl)
  behind l hl := h.behind l (List.mem_cons_of_mem _ hl)

end LinkedText

lemma resolveLinks_plain (rename : List Char → List Char) {cs : List Char}
    (h : ¬['[', '\x60'] <:+: cs) : resolveLinks rename cs = cs := by
  induction cs with
  | nil => rw [resolveLinks]
  | cons c cs ih =>
    have hrest : ¬['[', '\x60'] <:+: cs := fun hcs => h (hcs.trans (List.suffix_cons c cs).isInfix)
    rw [resolveLinks_cons rename fun hbegins => h hbegins.isInfix, ih hrest]

lemma resolveLinks_text (routes : List String) {d : LinkedText} (h : d.IsPieced) :
    resolveLinks (linkName routes) d.text.toList = (d.resolved routes).toList := by
  obtain ⟨front, links⟩ := d
  induction links generalizing front with
  | nil =>
    have hplain := resolveLinks_plain (linkName routes) h.front
    simpa [LinkedText.text, LinkedText.resolved] using hplain
  | cons l links ih =>
    obtain ⟨name, behind⟩ := l
    have htext : (LinkedText.text ⟨front, (name, behind) :: links⟩).toList =
        front.toList ++ '[' :: '\x60' :: (name.toList ++ '\x60' :: ']' ::
          (LinkedText.text ⟨behind, links⟩).toList) := by
      simp [LinkedText.text]
    have hfirst := resolveLinks_first (linkName routes) h.front
      (h.target (name, behind) List.mem_cons_self) (LinkedText.text ⟨behind, links⟩).toList
    rw [htext, hfirst, ih behind h.tail, ofList_linkName]
    simp [LinkedText.resolved, inlineLink]

lemma dropWhile_eq_self {p : Char → Bool} {cs : List Char} (h : ∀ c ∈ cs.head?, p c = false) :
    cs.dropWhile p = cs := by
  cases cs with
  | nil => rfl
  | cons c cs => rw [List.dropWhile_cons_of_neg (by simp [h c rfl])]

lemma trim_eq_self {d : LinkedText} (h : d.IsTrimmed) : trim d.text.toList = d.text.toList := by
  have hstart : d.text.toList.dropWhile (fun c => c == '\n' || c == '\r') = d.text.toList := by
    refine dropWhile_eq_self fun c hc => ?_
    obtain ⟨hline, hreturn⟩ := h.start c hc
    simp [hline, hreturn]
  have hstop : d.text.toList.reverse.dropWhile isSpace = d.text.toList.reverse := by
    refine dropWhile_eq_self fun c hc => h.stop c ?_
    rwa [List.head?_reverse] at hc
  rw [trim, hstart, trimEnd, dropEndWhile, hstop, List.reverse_reverse]

/-- Each link of a documentation text is resolved where it stands, and all else is kept; only an
empty text has no documentation. -/
theorem render_linkedText (routes : List String) (d : LinkedText) (h : d.IsPieced)
    (htrim : d.IsTrimmed) :
    render routes d.text = if d.text = "" then none else some (d.resolved routes) := by
  rw [render, trim_eq_self htrim]
  split
  · next hnil => rw [if_pos (String.toList_eq_nil_iff.mp hnil)]
  · next hne =>
    have hne' : d.text ≠ "" := fun hempty => hne (String.toList_eq_nil_iff.mpr hempty)
    rw [if_neg hne', resolveLinks_text routes h, String.ofList_toList]

/-- Brackets and backticks in front of links, in a target and behind it. -/
def bracketedText : LinkedText :=
  ⟨"[x] `y` [", [("get_user", "] ["), ("`]a[`b", "\nsee "), ("User", "`].")]⟩

theorem render_linkedText_bracketedText :
    bracketedText.IsPieced ∧ bracketedText.IsTrimmed ∧
      bracketedText.text = "[x] `y` [[`get_user`]] [[``]a[`b`]\nsee [`User`]`]." ∧
      render ["get_user"] bracketedText.text =
        some ("[x] `y` [\x7b@link getUser\x7d] [\x7b@link `]a[`b\x7d\n" ++
          "see \x7b@link User\x7d`].") := by
  have htext : bracketedText.text = "[x] `y` [[`get_user`]] [[``]a[`b`]\nsee [`User`]`]." := by
    cbv
  have hpieced : bracketedText.IsPieced := by
    refine ⟨?_, ?_, ?_⟩
    · decide
    · decide
    · decide
  have htrim : bracketedText.IsTrimmed := by
    refine ⟨?_, ?_⟩
    · simp [htext]
    · simp [htext]
      decide
  have hrender := render_linkedText ["get_user"] bracketedText hpieced htrim
  have hresolved : bracketedText.resolved ["get_user"] =
      "[x] `y` [\x7b@link getUser\x7d] [\x7b@link `]a[`b\x7d\n" ++
          "see \x7b@link User\x7d`]." := by
    cbv
  rw [if_neg (by simp [htext]), hresolved] at hrender
  exact ⟨hpieced, htrim, htext, hrender⟩

theorem not_forall_render_eq_resolved :
    ¬∀ (routes : List String) (d : LinkedText), d.IsPieced → d.IsTrimmed →
      render routes d.text = some (d.resolved routes) := by
  intro hall
  have htext : LinkedText.text ⟨"", []⟩ = "" := rfl
  have hpieced : LinkedText.IsPieced ⟨"", []⟩ := ⟨by decide, by simp, by simp⟩
  have htrim : LinkedText.IsTrimmed ⟨"", []⟩ := ⟨by simp [htext], by simp [htext]⟩
  have hrender : render [] "" = some "" := hall [] ⟨"", []⟩ hpieced htrim
  cases hrender

end SchemaClient.Client.Doc
