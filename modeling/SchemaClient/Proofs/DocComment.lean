import Mathlib
import SchemaClient.Client.Doc
import SchemaClient.Code.Comment
import SchemaClient.Proofs.TextLines

/-!
# Links in documentation comments

The first link of a documentation text is resolved where it stands: what is in front of it is kept,
but for the line breaks at the beginning, and what is behind it is resolved on its own. The comment
that is written for the text keeps the link in one piece.
-/

namespace SchemaClient.Text

/-- A text stands somewhere in another one. -/
def Occurs (s t : String) : Prop :=
  s.toList <:+: t.toList

instance (s t : String) : Decidable (Occurs s t) :=
  inferInstanceAs (Decidable (s.toList <:+: t.toList))

namespace Occurs

variable {s t : String}

lemma refl (s : String) : Occurs s s :=
  List.infix_rfl

lemma trans {u : String} (h : Occurs s t) (h' : Occurs t u) : Occurs s u :=
  List.IsInfix.trans h h'

lemma append_left (h : Occurs s t) (u : String) : Occurs s (u ++ t) := by
  rw [Occurs, String.toList_append]
  exact List.IsInfix.trans h (List.suffix_append _ _).isInfix

lemma append_right (h : Occurs s t) (u : String) : Occurs s (t ++ u) := by
  rw [Occurs, String.toList_append]
  exact List.IsInfix.trans h (List.prefix_append _ _).isInfix

lemma join {l : List String} (h : s ∈ l) : Occurs s (String.join l) := by
  obtain ⟨front, back, rfl⟩ := List.append_of_mem h
  rw [String.join_append, String.join_cons]
  exact ((refl s).append_right _).append_left _

end Occurs

lemma eq_of_toUpper {c x : Char} (h : c.toUpper = x) (hx : x.toNat < 65) : c = x := by
  unfold Char.toUpper at h
  split at h
  · next hc =>
    subst h
    have hlow := UInt32.le_iff_toNat_le.mp hc.1
    have hhigh := UInt32.le_iff_toNat_le.mp hc.2
    have ha : 'a'.val.toNat = 97 := rfl
    have hz : 'z'.val.toNat = 122 := rfl
    have hshift : ('A'.val - 'a'.val).toNat = 2 ^ 32 - 32 := rfl
    simp only [Char.toNat, UInt32.toNat_add, hshift] at hx
    omega
  · exact h

/-- Joining words brings in no character that stands before the capitals. -/
lemma mem_of_mem_joinWords {x : Char} (hx : x.toNat < 65) {raise : Bool} {cs : List Char}
    (h : x ∈ joinWords raise cs) : x ∈ cs := by
  induction cs generalizing raise with
  | nil => simp [joinWords] at h
  | cons c cs ih =>
    rw [joinWords] at h
    split at h
    · exact List.mem_cons_of_mem c (ih h)
    · rcases List.mem_cons.mp h with hhead | htail
      · have hc : c = x := by
          cases raise with
          | false => exact hhead.symm
          | true => exact eq_of_toUpper hhead.symm hx
        exact hc ▸ List.mem_cons_self
      · exact List.mem_cons_of_mem c (ih htail)

end SchemaClient.Text

namespace SchemaClient.Client.Doc
open SchemaClient.Text

/-- The name may be the target of a link and stay in one piece in a comment. -/
structure IsLinkable (name : String) : Prop where
  ne_empty : name ≠ ""
  backtick : '\x60' ∉ name.toList
  newline : '\n' ∉ name.toList
  star : '*' ∉ name.toList

lemma isLinkable_of_word {name : String} (hne : name ≠ "")
    (h : ∀ c ∈ name.toList, c.isAlphanum = true ∨ c = '_') : IsLinkable name where
  ne_empty := hne
  backtick hmem := absurd (h _ hmem) (by decide)
  newline hmem := absurd (h _ hmem) (by decide)
  star hmem := absurd (h _ hmem) (by decide)

def inlineLink (target : String) : String :=
  "\x7b@link " ++ target ++ "\x7d"

/-- The text reaches up to the first end of a link that does not stand at its front. -/
structure IsTarget (t : List Char) : Prop where
  ne_nil : t ≠ []
  newline : '\n' ∉ t
  closes : ∀ front back, t ++ ['\x60', ']'] = front ++ '\x60' :: ']' :: back →
    front = [] ∨ back = []

lemma IsTarget.tail {c d : Char} {t : List Char} (h : IsTarget (c :: d :: t)) :
    IsTarget (d :: t) where
  ne_nil := List.cons_ne_nil d t
  newline hmem := h.newline (List.mem_cons_of_mem c hmem)
  closes front back heq := by
    rcases h.closes (c :: front) back (congrArg (c :: ·) heq) with hfront | hback
    · cases hfront
    · exact .inr hback

lemma IsLinkable.isTarget {name : String} (h : IsLinkable name) : IsTarget name.toList where
  ne_nil hnil := h.ne_empty (String.toList_eq_nil_iff.mp hnil)
  newline := h.newline
  closes front back heq := by
    obtain ⟨-, -, htail⟩ := (List.append_cons_inj_of_notMem h.backtick (by decide)).mp heq
    exact .inr (List.cons.inj htail).2.symm

lemma isTarget_singleton {c : Char} (hc : c ≠ '\n') : IsTarget [c] where
  ne_nil := List.cons_ne_nil c []
  newline hmem := hc (List.mem_singleton.mp hmem).symm
  closes front back heq := by
    cases front with
    | nil => exact .inl rfl
    | cons d front =>
      have hlength := congrArg List.length heq
      simp at hlength
      exact .inr (List.length_eq_zero_iff.mp (by omega))

lemma IsTarget.cons {c : Char} {t : List Char} (h : IsTarget t) (hc : c ≠ '\n')
    (hend : ∀ back, t ≠ '\x60' :: ']' :: back) : IsTarget (c :: t) where
  ne_nil := List.cons_ne_nil c t
  newline := List.mem_cons.not.mpr (not_or.mpr ⟨Ne.symm hc, h.newline⟩)
  closes front back heq := by
    cases front with
    | nil => exact .inl rfl
    | cons d front =>
      obtain ⟨rfl, htail⟩ := List.cons.inj heq
      rcases h.closes front back htail with rfl | hback
      -- An end at the front of `t` would be made of characters of `t` alone.
      · cases t with
        | nil => exact absurd rfl h.ne_nil
        | cons x t =>
          obtain ⟨rfl, hrest⟩ := List.cons.inj htail
          cases t with
          | nil => exact absurd (List.cons.inj hrest).1 (by decide)
          | cons y t =>
            obtain ⟨rfl, -⟩ := List.cons.inj hrest
            exact absurd rfl (hend t)
      · exact .inr hback

lemma eq_of_afterEnd? {cs rest : List Char} (h : afterEnd? cs = some rest) :
    cs = '\x60' :: ']' :: rest := by
  unfold afterEnd? at h
  split at h
  · rw [Option.some.inj h]
  · cases h

lemma isTarget_of_target? {cs t back : List Char} (h : target? cs = some (t, back)) :
    IsTarget t ∧ cs = t ++ '\x60' :: ']' :: back := by
  induction cs generalizing t with
  | nil => cases h
  | cons c cs ih =>
    rw [target?] at h
    split at h
    · cases h
    · next hc =>
      split at h
      · next rest hrest =>
        obtain ⟨rfl, rfl⟩ := Prod.mk.inj (Option.some.inj h)
        exact ⟨isTarget_singleton hc, by rw [eq_of_afterEnd? hrest, List.singleton_append]⟩
      · next hend =>
        obtain ⟨p, hp, heq⟩ := Option.map_eq_some_iff.mp h
        obtain ⟨rfl, rfl⟩ := Prod.mk.inj heq
        obtain ⟨htarget, rfl⟩ := ih hp
        refine ⟨htarget.cons hc ?_, List.cons_append.symm⟩
        intro back hback
        rw [hback] at hend
        cases hend

lemma target?_append {t : List Char} (h : IsTarget t) (back : List Char) :
    target? (t ++ '\x60' :: ']' :: back) = some (t, back) := by
  induction t with
  | nil => exact absurd rfl h.ne_nil
  | cons c t ih =>
    have hc : c ≠ '\n' := fun hc => h.newline (hc ▸ List.mem_cons_self)
    rw [List.cons_append, target?, if_neg hc]
    cases t with
    | nil => rfl
    | cons d t =>
      have hend : afterEnd? (d :: (t ++ '\x60' :: ']' :: back)) = none := by
        rw [afterEnd?]
        rintro cs heq
        obtain ⟨rfl, htail⟩ := List.cons.inj heq
        cases t with
        | nil => exact absurd (List.cons.inj htail).1 (by decide)
        | cons e t =>
          obtain ⟨rfl, -⟩ := List.cons.inj htail
          rcases h.closes [c] (t ++ ['\x60', ']']) rfl with hfront | hback
          · cases hfront
          · simp at hback
      rw [List.cons_append, hend, ← List.cons_append, ih h.tail]
      rfl

instance (t : List Char) : Decidable (IsTarget t) :=
  decidable_of_iff (target? (t ++ ['\x60', ']']) = some (t, []))
    ⟨fun h => (isTarget_of_target? h).1, fun h => target?_append h []⟩

/-- A character that begins no link is kept. -/
lemma resolveLinks_cons (rename : List Char → List Char) {c : Char} {cs : List Char}
    (h : ¬['[', '\x60'] <+: c :: cs) :
    resolveLinks rename (c :: cs) = c :: resolveLinks rename cs := by
  have hlink : link? (c :: cs) = none := by
    have hstart : afterStart? (c :: cs) = none := by
      rw [afterStart?]
      rintro ds heq
      exact h (heq ▸ List.prefix_append ['[', '\x60'] ds)
    rw [link?, hstart]
    rfl
  rw [resolveLinks]
  split
  · next heq => cases hlink.symm.trans heq
  · rfl

/-- The first link is resolved in its place, and what is behind it on its own. -/
lemma resolveLinks_first (rename : List Char → List Char) {front name : List Char}
    (hfront : ¬['[', '\x60'] <:+: front) (hname : IsTarget name) (back : List Char) :
    resolveLinks rename (front ++ '[' :: '\x60' :: (name ++ '\x60' :: ']' :: back)) =
      front ++ ("\x7b@link ".toList ++ rename name ++ '\x7d' :: resolveLinks rename back) := by
  induction front with
  | nil =>
    have hlink : link? ('[' :: '\x60' :: (name ++ '\x60' :: ']' :: back)) = some (name, back) :=
      target?_append hname back
    rw [List.nil_append, resolveLinks]
    split
    · next t rest h =>
      obtain ⟨rfl, rfl⟩ := Prod.mk.inj (Option.some.inj (hlink.symm.trans h))
      rfl
    · next h => cases hlink.symm.trans h
  | cons c front ih =>
    -- No link begins here, not even with the bracket of the link that follows.
    have hplain : ¬['[', '\x60'] <+:
        c :: (front ++ '[' :: '\x60' :: (name ++ '\x60' :: ']' :: back)) := by
      intro hbegins
      obtain ⟨rfl, htail⟩ := List.cons_prefix_cons.mp hbegins
      cases front with
      | nil => exact absurd (List.cons_prefix_cons.mp htail).1 (by decide)
      | cons d front =>
        obtain ⟨rfl, -⟩ := List.cons_prefix_cons.mp htail
        exact hfront (List.prefix_append ['[', '\x60'] front).isInfix
    have hrest : ¬['[', '\x60'] <:+: front :=
      fun h => hfront (h.trans (List.suffix_cons c front).isInfix)
    rw [List.cons_append, resolveLinks_cons rename hplain, ih hrest, List.cons_append]

/-- What a link to a name is written for: a route stands under its camel case. -/
def linkTarget (routes : List String) (name : String) : String :=
  if name ∈ routes then camelCase name else name

lemma ofList_linkName (routes : List String) (name : String) :
    linkName routes name.toList = (linkTarget routes name).toList := by
  rw [linkName, linkTarget, String.ofList_toList, List.contains_eq_mem]
  by_cases h : name ∈ routes
  · simp [h, camelCase]
  · simp [h]

def withoutBreaks (text : String) : String :=
  String.ofList (text.toList.dropWhile fun c => c == '\n' || c == '\r')

lemma render_first_link (routes : List String) {front name : String} (hfront : ¬Occurs "[`" front)
    (h : IsLinkable name) (back : String) :
    render routes (front ++ "[`" ++ name ++ "`]" ++ back) =
      some (withoutBreaks front ++ inlineLink (linkTarget routes name) ++
        String.ofList (resolveLinks (linkName routes) (trimEnd back.toList))) := by
  have hchars : (front ++ "[`" ++ name ++ "`]" ++ back).toList =
      front.toList ++ '[' :: ('\x60' :: name.toList ++ ['\x60']) ++ ']' :: back.toList := by
    simp
  have htrim : trim (front ++ "[`" ++ name ++ "`]" ++ back).toList =
      (withoutBreaks front).toList ++
        '[' :: '\x60' :: (name.toList ++ '\x60' :: ']' :: trimEnd back.toList) := by
    rw [hchars, trim, List.append_assoc, List.cons_append, dropWhile_append_cons (by decide),
      ← List.cons_append, ← List.append_assoc, trimEnd, dropEndWhile_append_cons (by decide)]
    simp [withoutBreaks, trimEnd]
  have hfront' : ¬['[', '\x60'] <:+: (withoutBreaks front).toList := by
    intro hinner
    rw [withoutBreaks, String.toList_ofList] at hinner
    exact hfront (hinner.trans (List.dropWhile_suffix _).isInfix)
  have hresolve := resolveLinks_first (linkName routes) hfront' h.isTarget (trimEnd back.toList)
  rw [render, htrim]
  split
  · next hnil => simp at hnil
  · rw [hresolve, ofList_linkName]
    refine congrArg some (String.toList_inj.mp ?_)
    simp [inlineLink]

lemma not_mem_linkTarget {x : Char} (hx : x.toNat < 65) (routes : List String) {name : String}
    (h : x ∉ name.toList) : x ∉ (linkTarget routes name).toList := by
  rw [linkTarget]
  split
  · rw [camelCase, String.toList_ofList]
    exact fun hmem => h (mem_of_mem_joinWords hx hmem)
  · exact h

end SchemaClient.Client.Doc

namespace SchemaClient.Code.Comment
open SchemaClient.Text

lemma disarm_cons {c : Char} (hc : c ≠ '*') (cs : List Char) :
    disarm (c :: cs) = c :: disarm cs := by
  rw [disarm]
  rintro - rfl
  exact absurd rfl hc

lemma disarm_append {word : List Char} (h : '*' ∉ word) (cs : List Char) :
    disarm (word ++ cs) = word ++ disarm cs := by
  induction word with
  | nil => rfl
  | cons c word ih =>
    obtain ⟨hc, hword⟩ := not_or.mp (List.mem_cons.not.mp h)
    rw [List.cons_append, disarm_cons (Ne.symm hc), ih hword, List.cons_append]

lemma disarm_append_cons {c : Char} (hslash : c ≠ '/') (hstar : c ≠ '*') (front cs : List Char) :
    disarm (front ++ c :: cs) = disarm front ++ c :: disarm cs := by
  fun_induction disarm front with
  | case1 front ih => simp only [List.cons_append, disarm, ih]
  | case2 d front hpair ih =>
    rw [List.cons_append, disarm, ih, List.cons_append]
    rintro rest rfl heq
    cases front with
    | nil => exact hslash (List.cons.inj heq).1
    | cons e front =>
      obtain ⟨rfl, -⟩ := List.cons.inj heq
      exact hpair front rfl rfl
  | case3 => rw [List.nil_append, disarm_cons hstar, List.nil_append]

/-- A word in a text is kept, if no comment terminator can begin in it or end with it. -/
lemma infix_disarm {c : Char} {word : List Char} (hslash : c ≠ '/') (h : '*' ∉ c :: word)
    (front back : List Char) : c :: word <:+: disarm (front ++ c :: word ++ back) := by
  obtain ⟨hc, hword⟩ := not_or.mp (List.mem_cons.not.mp h)
  rw [List.append_assoc, List.cons_append, disarm_append_cons hslash (Ne.symm hc),
    disarm_append hword, ← List.cons_append, ← List.append_assoc]
  exact List.infix_append _ _ _

section Lines

variable {word : List Char} (hline : '\n' ∉ word)
include hline

lemma exists_splitOn_append (back : List Char) :
    ∃ line lines, (word ++ back).splitOn '\n' = line :: lines ∧ word <+: line := by
  induction word with
  | nil =>
    obtain ⟨line, lines, hsplit⟩ := List.exists_cons_of_ne_nil (List.splitOn_ne_nil '\n' back)
    exact ⟨line, lines, hsplit, List.nil_prefix⟩
  | cons c word ih =>
    obtain ⟨hc, hword⟩ := not_or.mp (List.mem_cons.not.mp hline)
    obtain ⟨line, lines, hsplit, hstart⟩ := ih hword
    refine ⟨c :: line, lines, ?_, List.cons_prefix_cons.mpr ⟨rfl, hstart⟩⟩
    rw [List.cons_append, List.splitOn_cons_eq_if_modifyHead, if_neg (by simpa using Ne.symm hc),
      hsplit]
    rfl

lemma exists_mem_splitOn (front back : List Char) :
    ∃ line ∈ (front ++ word ++ back).splitOn '\n', word <:+: line := by
  induction front with
  | nil =>
    obtain ⟨line, lines, hsplit, hstart⟩ := exists_splitOn_append hline back
    rw [List.nil_append, hsplit]
    exact ⟨line, List.mem_cons_self, hstart.isInfix⟩
  | cons c front ih =>
    obtain ⟨line, hmem, hinner⟩ := ih
    rw [List.cons_append, List.cons_append, List.splitOn_cons_eq_if_modifyHead]
    split
    · exact ⟨line, List.mem_cons_of_mem _ hmem, hinner⟩
    · cases hsplit : (front ++ word ++ back).splitOn '\n' with
      | nil => exact absurd hsplit (List.splitOn_ne_nil _ _)
      | cons first lines =>
        rw [hsplit] at hmem
        rcases List.mem_cons.mp hmem with rfl | hlater
        · exact ⟨c :: line, List.mem_cons_self, hinner.trans (List.suffix_cons c line).isInfix⟩
        · exact ⟨line, List.mem_cons_of_mem _ hlater, hinner⟩

lemma exists_mem_lines (hne : word ≠ []) {cs : List Char} (h : word <:+: cs) :
    ∃ line ∈ lines cs, word <:+: line := by
  obtain ⟨front, back, rfl⟩ := h
  obtain ⟨line, hmem, hinner⟩ := exists_mem_splitOn hline front back
  refine ⟨line, ?_, hinner⟩
  rw [lines]
  split
  · next hlast =>
    refine List.mem_dropLast_of_mem_of_ne_getLast? hmem ?_
    rw [hlast]
    rintro hnil
    obtain rfl := Option.some.inj hnil
    exact hne (List.infix_nil.mp hinner)
  · exact hmem

end Lines

lemma infix_trimEnd {word : List Char} {c : Char} (hc : isSpace c = false) {cs : List Char}
    (h : word ++ [c] <:+: cs) : word ++ [c] <:+: trimEnd cs := by
  obtain ⟨front, back, rfl⟩ := h
  have hsplit : front ++ (word ++ [c]) ++ back = (front ++ word) ++ c :: back := by simp
  rw [hsplit, trimEnd, dropEndWhile_append_cons hc]
  exact ⟨front, dropEndWhile isSpace back, by simp⟩

lemma occurs_line {word : List Char} {c : Char} (hc : isSpace c = false) {cs : List Char}
    (h : word ++ [c] <:+: cs) (indent : String) :
    Occurs (String.ofList (word ++ [c])) (line indent cs) := by
  have htrim := infix_trimEnd hc h
  rw [line]
  split
  · next hnil =>
    rw [hnil] at htrim
    simp at htrim
  · have hword : Occurs (String.ofList (word ++ [c])) (String.ofList (trimEnd cs)) := by
      rw [Occurs, String.toList_ofList, String.toList_ofList]
      exact htrim
    exact (hword.append_left _).append_right _

/-- A word that stays on its line stands in the comment of a text in which it is kept. -/
lemma occurs_block {word : List Char} {c : Char} (hc : isSpace c = false)
    (hline : '\n' ∉ word ++ [c]) {doc : String} (h : word ++ [c] <:+: disarm doc.toList)
    (indent : String) : Occurs (String.ofList (word ++ [c])) (block indent doc) := by
  rw [block]
  split
  · obtain ⟨l, hmem, hinner⟩ := exists_mem_lines hline (by simp) h
    have hjoin := (occurs_line hc hinner indent).trans
      (Occurs.join (List.mem_map_of_mem (f := line indent) hmem))
    exact ((hjoin.append_left _).append_right _).append_right _
  · have hword : Occurs (String.ofList (word ++ [c])) (String.ofList (disarm doc.toList)) := by
      rw [Occurs, String.toList_ofList, String.toList_ofList]
      exact h
    exact (hword.append_left _).append_right _

end SchemaClient.Code.Comment

namespace SchemaClient.Client.Doc
open SchemaClient.Text SchemaClient.Code

lemma occurs_inlineLink (routes : List String) {name : String} (h : IsLinkable name)
    (front back indent : String) : Occurs (inlineLink (linkTarget routes name))
      (Comment.block indent (front ++ inlineLink (linkTarget routes name) ++ back)) := by
  have hstar := not_mem_linkTarget (x := '*') (by decide) routes h.star
  have hnewline := not_mem_linkTarget (x := '\n') (by decide) routes h.newline
  have hword : (inlineLink (linkTarget routes name)).toList =
      ("\x7b@link ".toList ++ (linkTarget routes name).toList) ++ ['\x7d'] := by
    simp [inlineLink]
  have hkept : (inlineLink (linkTarget routes name)).toList <:+:
      Comment.disarm (front ++ inlineLink (linkTarget routes name) ++ back).toList := by
    rw [String.toList_append, String.toList_append]
    have hcons : (inlineLink (linkTarget routes name)).toList =
        '\x7b' :: ("@link ".toList ++ (linkTarget routes name).toList ++ ['\x7d']) := by
      simp [inlineLink]
    rw [hcons]
    exact Comment.infix_disarm (by decide) (by simpa using hstar) _ _
  have hline : '\n' ∉ ("\x7b@link ".toList ++ (linkTarget routes name).toList) ++ ['\x7d'] := by
    simpa using hnewline
  rw [hword] at hkept
  have hoccurs := Comment.occurs_block (by decide) hline hkept indent
  rwa [← hword, String.ofList_toList] at hoccurs

end SchemaClient.Client.Doc
