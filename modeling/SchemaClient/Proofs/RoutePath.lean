import Mathlib.Data.List.Infix
import Mathlib.Tactic.Lemma
import SchemaClient.Client.Route

/-!
# Route paths without placeholders

Every path is cut at its placeholders in exactly one way. Stripping keeps the texts between them,
but for a separator in front of a placeholder, and leaves no placeholder behind.
-/

namespace SchemaClient.Client.RoutePath

/-- A placeholder and the text in front of it. -/
@[ext]
structure Segment where
  front : List Char
  name : List Char

def Segment.text (s : Segment) : List Char :=
  s.front ++ '<' :: (s.name ++ ['>'])

lemma Segment.text_append (s : Segment) (back : List Char) :
    s.text ++ back = s.front ++ '<' :: (s.name ++ '>' :: back) := by
  simp [text]

/-- A path as a row of segments and the text behind the last placeholder. -/
structure Segmented where
  segments : List Segment
  rest : List Char

/-- The text without a separator at its end. -/
def dropSeparator (cs : List Char) : List Char :=
  if cs.getLast?.any isSeparator then cs.dropLast else cs

/-- A `<` stands in the text with a `>` somewhere behind it. -/
def HasPlaceholder (cs : List Char) : Prop :=
  ['<', '>'].Sublist cs

lemma HasPlaceholder.append {cs : List Char} (h : HasPlaceholder cs) (front : List Char) :
    HasPlaceholder (front ++ cs) :=
  h.trans (List.sublist_append_right front cs)

lemma hasPlaceholder_cons_iff {c : Char} (hc : c ≠ '<') {cs : List Char} :
    HasPlaceholder (c :: cs) ↔ HasPlaceholder cs := by
  constructor
  · intro h
    cases h with
    | cons _ h => exact h
    | cons_cons _ _ => exact absurd rfl hc
  · exact fun h => h.append [c]

lemma hasPlaceholder_append_iff {front : List Char} (h : '<' ∉ front) {cs : List Char} :
    HasPlaceholder (front ++ cs) ↔ HasPlaceholder cs := by
  induction front with
  | nil => rfl
  | cons c front ih =>
    obtain ⟨hc, hfront⟩ := not_or.mp (List.mem_cons.not.mp h)
    rw [List.cons_append, hasPlaceholder_cons_iff (Ne.symm hc), ih hfront]

/-- The first placeholder of a text begins at the first `<` and ends at the first `>` behind it. -/
lemma exists_segment {cs : List Char} (h : HasPlaceholder cs) :
    ∃ (s : Segment) (back : List Char), cs = s.text ++ back ∧ '<' ∉ s.front ∧ '>' ∉ s.name := by
  have hopen : '<' ∈ cs := h.subset (by simp)
  obtain ⟨front, tail, rfl, hfront⟩ := List.eq_append_cons_of_mem hopen
  have htail := (hasPlaceholder_append_iff hfront).mp h
  have hclose : '>' ∈ tail := List.singleton_sublist.mp (List.cons_sublist_cons.mp htail)
  obtain ⟨name, back, rfl, hname⟩ := List.eq_append_cons_of_mem hclose
  exact ⟨⟨front, name⟩, back, (Segment.text_append ⟨front, name⟩ back).symm, hfront, hname⟩

/-! ### Stripping -/

lemma afterClosing?_append {name : List Char} (h : '>' ∉ name) (back : List Char) :
    afterClosing? (name ++ '>' :: back) = some back := by
  induction name with
  | nil => rfl
  | cons c name ih =>
    obtain ⟨hc, hname⟩ := not_or.mp (List.mem_cons.not.mp h)
    rw [List.cons_append, afterClosing?, if_neg (Ne.symm hc), ih hname]

lemma mem_of_afterClosing? {cs back : List Char} (h : afterClosing? cs = some back) :
    '>' ∈ cs := by
  induction cs with
  | nil => cases h
  | cons c cs ih =>
    rw [afterClosing?] at h
    split at h
    · next hc => exact hc ▸ List.mem_cons_self
    · exact List.mem_cons_of_mem c (ih h)

lemma hasPlaceholder_of_afterPlaceholder? {cs back : List Char}
    (h : afterPlaceholder? cs = some back) : HasPlaceholder cs := by
  have hopened : ∀ {ds : List Char}, afterClosing? ds = some back → HasPlaceholder ('<' :: ds) :=
    fun hds => (List.singleton_sublist.mpr (mem_of_afterClosing? hds)).cons_cons '<'
  unfold afterPlaceholder? at h
  split at h
  · exact hopened h
  · next c ds _ =>
    split at h
    · exact (hopened h).append [c]
    · cases h
  · cases h

lemma strip_of_some {c : Char} {cs back : List Char}
    (h : afterPlaceholder? (c :: cs) = some back) : strip (c :: cs) = strip back := by
  rw [strip]
  split
  · next rest hrest => rw [Option.some.inj (hrest.symm.trans h)]
  · next hnone => cases hnone.symm.trans h

lemma strip_of_none {c : Char} {cs : List Char} (h : afterPlaceholder? (c :: cs) = none) :
    strip (c :: cs) = c :: strip cs := by
  rw [strip]
  split
  · next rest hrest => cases hrest.symm.trans h
  · rfl

/-- Nothing is stripped from a text without placeholders. -/
lemma strip_of_not_hasPlaceholder {cs : List Char} (h : ¬HasPlaceholder cs) : strip cs = cs := by
  induction cs with
  | nil => rw [strip]
  | cons c cs ih =>
    cases hplace : afterPlaceholder? (c :: cs) with
    | none => rw [strip_of_none hplace, ih fun hcs => h (hcs.append [c])]
    | some back => exact absurd (hasPlaceholder_of_afterPlaceholder? hplace) h

lemma dropSeparator_singleton (c : Char) :
    dropSeparator [c] = if isSeparator c then [] else [c] := by
  simp [dropSeparator]

lemma dropSeparator_cons_cons (c d : Char) (cs : List Char) :
    dropSeparator (c :: d :: cs) = c :: dropSeparator (d :: cs) := by
  rw [dropSeparator, dropSeparator, List.getLast?_cons_cons, List.dropLast_cons_cons]
  split <;> rfl

lemma not_mem_dropSeparator {x : Char} {cs : List Char} (h : x ∉ cs) : x ∉ dropSeparator cs := by
  rw [dropSeparator]
  split
  · exact fun hx => h (List.dropLast_subset cs hx)
  · exact h

/-- The first placeholder goes with the separator in front of it. -/
lemma strip_placeholder {front name : List Char} (hfront : '<' ∉ front) (hname : '>' ∉ name)
    (back : List Char) :
    strip (front ++ '<' :: (name ++ '>' :: back)) = dropSeparator front ++ strip back := by
  have hclosing := afterClosing?_append hname back
  have hopened : afterPlaceholder? ('<' :: (name ++ '>' :: back)) = some back := hclosing
  induction front with
  | nil => exact strip_of_some hopened
  | cons c front ih =>
    obtain ⟨hc, hrest⟩ := not_or.mp (List.mem_cons.not.mp hfront)
    cases front with
    -- Only the last character in front of the placeholder can go with it.
    | nil =>
      have hplace : afterPlaceholder? (c :: '<' :: (name ++ '>' :: back)) =
          if isSeparator c then some back else none := by
        rw [← hclosing, afterPlaceholder?]
        exact Ne.symm hc
      rw [List.cons_append, List.nil_append, dropSeparator_singleton]
      split at hplace
      · next hsep => rw [strip_of_some hplace, if_pos hsep, List.nil_append]
      · next hsep =>
        rw [strip_of_none hplace, strip_of_some hopened, if_neg hsep, List.singleton_append]
    | cons d front =>
      have hd : '<' ≠ d := fun hd => hrest (hd ▸ List.mem_cons_self)
      have hplace :
          afterPlaceholder? (c :: (d :: front ++ '<' :: (name ++ '>' :: back))) = none := by
        unfold afterPlaceholder?
        split
        · next heq => exact absurd (List.cons.inj heq).1.symm hc
        · next heq => exact absurd (List.cons.inj (List.cons.inj heq).2).1.symm hd
        · rfl
      rw [List.cons_append, strip_of_none hplace, ih hrest, dropSeparator_cons_cons,
        List.cons_append]

/-! ### Cutting -/

lemma eq_of_append_cons {c : Char} {xs ys us vs : List Char} (hx : c ∉ xs) (hy : c ∉ ys)
    (h : xs ++ c :: us = ys ++ c :: vs) : xs = ys ∧ us = vs := by
  induction xs generalizing ys with
  | nil =>
    cases ys with
    | nil => exact ⟨rfl, (List.cons.inj h).2⟩
    | cons d ys => exact absurd ((List.cons.inj h).1 ▸ List.mem_cons_self) hy
  | cons d xs ih =>
    cases ys with
    | nil => exact absurd ((List.cons.inj h).1 ▸ List.mem_cons_self) hx
    | cons e ys =>
      obtain ⟨rfl, htail⟩ := List.cons.inj h
      obtain ⟨rfl, rfl⟩ := ih (fun hm => hx (List.mem_cons_of_mem d hm))
        (fun hm => hy (List.mem_cons_of_mem d hm)) htail
      exact ⟨rfl, rfl⟩

lemma Segment.text_append_inj {s t : Segment} (hs : '<' ∉ s.front) (ht : '<' ∉ t.front)
    (hs' : '>' ∉ s.name) (ht' : '>' ∉ t.name) {xs ys : List Char}
    (h : s.text ++ xs = t.text ++ ys) : s = t ∧ xs = ys := by
  rw [Segment.text_append, Segment.text_append] at h
  obtain ⟨hfront, htail⟩ := eq_of_append_cons hs ht h
  obtain ⟨hname, hrest⟩ := eq_of_append_cons hs' ht' htail
  exact ⟨Segment.ext hfront hname, hrest⟩

namespace Segmented

def text (p : Segmented) : List Char :=
  p.segments.flatMap Segment.text ++ p.rest

/-- The texts in front of the placeholders without their separators, and the text behind. -/
def stripped (p : Segmented) : List Char :=
  p.segments.flatMap (fun s => dropSeparator s.front) ++ p.rest

/-- The path is cut at its placeholders: each of them begins at a first `<` and ends at a first
`>`, and none is left behind the last one. -/
structure IsCut (p : Segmented) : Prop where
  front : ∀ s ∈ p.segments, '<' ∉ s.front
  name : ∀ s ∈ p.segments, '>' ∉ s.name
  rest : ¬HasPlaceholder p.rest

lemma IsCut.tail {s : Segment} {ss : List Segment} {rest : List Char}
    (h : IsCut ⟨s :: ss, rest⟩) : IsCut ⟨ss, rest⟩ where
  front t ht := h.front t (List.mem_cons_of_mem s ht)
  name t ht := h.name t (List.mem_cons_of_mem s ht)
  rest := h.rest

lemma IsCut.cons {s : Segment} {p : Segmented} (hp : p.IsCut) (hfront : '<' ∉ s.front)
    (hname : '>' ∉ s.name) : IsCut ⟨s :: p.segments, p.rest⟩ where
  front := List.forall_mem_cons.mpr ⟨hfront, hp.front⟩
  name := List.forall_mem_cons.mpr ⟨hname, hp.name⟩
  rest := hp.rest

lemma text_cons (s : Segment) (ss : List Segment) (rest : List Char) :
    text ⟨s :: ss, rest⟩ = s.text ++ text ⟨ss, rest⟩ := by
  simp [text]

lemma hasPlaceholder_text_cons (s : Segment) (ss : List Segment) (rest : List Char) :
    HasPlaceholder (text ⟨s :: ss, rest⟩) := by
  have hplace : HasPlaceholder ('<' :: (s.name ++ ['>'])) :=
    (List.sublist_append_right s.name ['>']).cons_cons '<'
  rw [text_cons, HasPlaceholder]
  exact (hplace.append s.front).trans (List.sublist_append_left s.text _)

lemma exists_isCut (cs : List Char) : ∃ p : Segmented, p.IsCut ∧ p.text = cs := by
  induction hn : cs.length using Nat.strong_induction_on generalizing cs with
  | _ n ih =>
    by_cases h : HasPlaceholder cs
    · obtain ⟨s, back, rfl, hfront, hname⟩ := exists_segment h
      have hlt : back.length < n := by
        rw [← hn]
        simp only [Segment.text, List.length_append, List.length_cons]
        omega
      obtain ⟨p, hp, rfl⟩ := ih back.length hlt back rfl
      exact ⟨⟨s :: p.segments, p.rest⟩, hp.cons hfront hname, text_cons s p.segments p.rest⟩
    · exact ⟨⟨[], cs⟩, ⟨by simp, by simp, h⟩, rfl⟩

lemma IsCut.eq_of_text {p q : Segmented} (hp : p.IsCut) (hq : q.IsCut) (h : p.text = q.text) :
    p = q := by
  obtain ⟨ss, rest⟩ := p
  obtain ⟨ts, rest'⟩ := q
  induction ss generalizing ts with
  | nil =>
    cases ts with
    | nil =>
      obtain rfl : rest = rest' := h
      rfl
    | cons t ts =>
      have htext : rest = text ⟨t :: ts, rest'⟩ := h
      exact absurd (htext ▸ hasPlaceholder_text_cons t ts rest') hp.rest
  | cons s ss ih =>
    cases ts with
    | nil =>
      have htext : text ⟨s :: ss, rest⟩ = rest' := h
      exact absurd (htext ▸ hasPlaceholder_text_cons s ss rest) hq.rest
    | cons t ts =>
      rw [text_cons, text_cons] at h
      obtain ⟨rfl, htail⟩ := Segment.text_append_inj (hp.front s List.mem_cons_self)
        (hq.front t List.mem_cons_self) (hp.name s List.mem_cons_self)
        (hq.name t List.mem_cons_self) h
      obtain ⟨rfl, rfl⟩ := Segmented.mk.inj (ih hp.tail ts hq.tail htail)
      rfl

lemma strip_text {p : Segmented} (h : p.IsCut) : strip p.text = p.stripped := by
  obtain ⟨ss, rest⟩ := p
  induction ss with
  | nil => exact strip_of_not_hasPlaceholder h.rest
  | cons s ss ih =>
    rw [text_cons, Segment.text_append, strip_placeholder (h.front s List.mem_cons_self)
      (h.name s List.mem_cons_self), ih h.tail]
    simp [stripped]

lemma not_hasPlaceholder_stripped {p : Segmented} (h : p.IsCut) :
    ¬HasPlaceholder p.stripped := by
  have hfront : '<' ∉ p.segments.flatMap fun s => dropSeparator s.front := by
    intro hmem
    obtain ⟨s, hs, hc⟩ := List.mem_flatMap.mp hmem
    exact not_mem_dropSeparator (h.front s hs) hc
  rw [stripped, hasPlaceholder_append_iff hfront]
  exact h.rest

end Segmented

end SchemaClient.Client.RoutePath

namespace SchemaClient.Client
open RoutePath

/-- A path is cut at its placeholders in exactly one way, and stripping deletes them, each with the
separator in front of it; a second time there is nothing to strip. -/
theorem stripPlaceholders_eq_stripped (path : String) :
    (∃! p : Segmented, p.IsCut ∧ String.ofList p.text = path) ∧
      (∃ p : Segmented, p.IsCut ∧ String.ofList p.text = path ∧
        stripPlaceholders path = String.ofList p.stripped) ∧
      ¬HasPlaceholder (stripPlaceholders path).toList ∧
      stripPlaceholders (stripPlaceholders path) = stripPlaceholders path := by
  obtain ⟨p, hp, htext⟩ := Segmented.exists_isCut path.toList
  have hpath : String.ofList p.text = path := by rw [htext, String.ofList_toList]
  have hstrip : stripPlaceholders path = String.ofList p.stripped := by
    rw [stripPlaceholders, ← htext, Segmented.strip_text hp]
  have hnone : ¬HasPlaceholder (stripPlaceholders path).toList := by
    rw [hstrip, String.toList_ofList]
    exact Segmented.not_hasPlaceholder_stripped hp
  have hagain : stripPlaceholders (stripPlaceholders path) = stripPlaceholders path := by
    rw [stripPlaceholders, strip_of_not_hasPlaceholder hnone, String.ofList_toList]
  refine ⟨⟨p, ⟨hp, hpath⟩, ?_⟩, ⟨p, hp, hpath, hstrip⟩, hnone, hagain⟩
  rintro q ⟨hq, hqpath⟩
  have hqtext : q.text = p.text := by
    rw [htext, ← hqpath, String.toList_ofList]
  exact hq.eq_of_text hp hqtext

end SchemaClient.Client
