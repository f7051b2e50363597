import Mathlib.Data.List.Infix
import Mathlib.Tactic.Lemma
import SchemaClient.Schema.TypeExpr

/-!
# The grammar of type expressions

A type expression is a wrapper around a balanced text or a plain text. This file gives the
grammar of balanced texts, shows that the table of rules takes a text apart exactly along its
wrappers, and concludes that every text is written by one term whose meaning is its type.
-/

namespace SchemaClient.Schema.TypeExpr
open SchemaClient.Code

/-- Texts whose angle brackets match: texts without brackets, such texts in brackets, and such
texts side by side. -/
inductive Balanced : List Char → Prop
  | plain {cs : List Char} (h : ∀ c ∈ cs, c ≠ '<' ∧ c ≠ '>') : Balanced cs
  | enclose {cs : List Char} (h : Balanced cs) : Balanced ('<' :: (cs ++ ['>']))
  | append {cs ds : List Char} (h₁ : Balanced cs) (h₂ : Balanced ds) : Balanced (cs ++ ds)

lemma Balanced.nil : Balanced [] := .plain (by simp)

lemma Balanced.singleton {c : Char} (h₁ : c ≠ '<') (h₂ : c ≠ '>') : Balanced [c] :=
  .plain (by simp [h₁, h₂])

lemma balanced_plain_append {cs : List Char} (h : ∀ c ∈ cs, c ≠ '<' ∧ c ≠ '>') (depth : Nat)
    (rest : List Char) : balanced depth (cs ++ rest) = balanced depth rest := by
  induction cs with
  | nil => rfl
  | cons c cs ih =>
    obtain ⟨h₁, h₂⟩ := h c (by simp)
    simp only [List.cons_append, balanced, if_neg h₁, if_neg h₂]
    exact ih fun d hd => h d (by simp [hd])

lemma Balanced.balanced_append {cs : List Char} (h : Balanced cs) (depth : Nat)
    (rest : List Char) : balanced depth (cs ++ rest) = balanced depth rest := by
  induction h generalizing depth rest with
  | plain h => exact balanced_plain_append h depth rest
  | enclose _ ih => simp [balanced, ih]
  | append _ _ ih₁ ih₂ => rw [List.append_assoc, ih₁, ih₂]

/-- A text that closes `depth` brackets, with balanced texts in front of, between and behind the
closing brackets. -/
inductive Closes : Nat → List Char → Prop
  | done {cs : List Char} (h : Balanced cs) : Closes 0 cs
  | close {depth : Nat} {cs rest : List Char} (h : Balanced cs) (hrest : Closes depth rest) :
    Closes (depth + 1) (cs ++ '>' :: rest)

lemma Closes.prepend {depth : Nat} {cs ds : List Char} (hc : Closes depth cs) (hd : Balanced ds) :
    Closes depth (ds ++ cs) := by
  cases hc with
  | done h => exact .done (hd.append h)
  | close h hrest =>
    rw [← List.append_assoc]
    exact .close (hd.append h) hrest

lemma closes_of_balanced {depth : Nat} {cs : List Char} (h : balanced depth cs = true) :
    Closes depth cs := by
  induction cs generalizing depth with
  | nil =>
    obtain rfl : depth = 0 := by simpa [balanced] using h
    exact .done .nil
  | cons c cs ih =>
    by_cases h₁ : c = '<'
    · subst h₁
      have hopen : balanced (depth + 1) cs = true := by simpa [balanced] using h
      cases ih hopen with
      | @close _ inner rest hinner hrest =>
        have hsplit : '<' :: (inner ++ '>' :: rest) = '<' :: (inner ++ ['>']) ++ rest := by simp
        rw [hsplit]
        exact hrest.prepend hinner.enclose
    by_cases h₂ : c = '>'
    · subst h₂
      obtain ⟨hpos, hcs⟩ : 0 < depth ∧ balanced (depth - 1) cs = true := by
        simpa [balanced] using h
      obtain ⟨depth, rfl⟩ := Nat.exists_eq_add_of_lt hpos
      rw [Nat.zero_add] at hcs ⊢
      exact .close .nil (ih hcs)
    · exact (ih (by simpa [balanced, h₁, h₂] using h)).prepend (.singleton h₁ h₂)

lemma balanced_iff {cs : List Char} : balanced 0 cs = true ↔ Balanced cs := by
  constructor
  · intro h
    cases closes_of_balanced h with
    | done h => exact h
  · intro h
    simpa [balanced] using h.balanced_append 0 []

lemma dropStart?_eq_some_iff {ps cs rest : List Char} :
    dropStart? ps cs = some rest ↔ cs = ps ++ rest := by
  induction ps generalizing cs with
  | nil => simp [dropStart?]
  | cons p ps ih =>
    cases cs with
    | nil => simp [dropStart?]
    | cons c cs =>
      by_cases hc : p = c
      · simp [dropStart?, hc, ih]
      · simp [dropStart?, hc, Ne.symm hc]

lemma dropClosing?_eq_some_iff {cs inner : List Char} :
    dropClosing? cs = some inner ↔ cs = inner ++ ['>'] := by
  fun_induction dropClosing? cs generalizing inner with
  | case1 => simp
  | case2 => cases inner <;> simp
  | case3 c hc => cases inner <;> simp [hc]
  | case4 c d cs ih =>
    rw [Option.map_eq_some_iff]
    cases inner with
    | nil => simp
    | cons e inner =>
      constructor
      · rintro ⟨u, hu, heq⟩
        obtain ⟨rfl, rfl⟩ := List.cons.inj heq
        rw [ih.mp hu, List.cons_append]
      · intro heq
        obtain ⟨rfl, hcs⟩ := List.cons.inj heq
        exact ⟨inner, ih.mpr hcs, rfl⟩

/-- The text `name<inner>`. -/
def enclose (name : String) (inner : List Char) : List Char :=
  name.toList ++ '<' :: (inner ++ ['>'])

/-- A wrapper applies exactly to its name in front of a balanced text in brackets that is not
empty. -/
lemma unwrap?_eq_some_iff {name : String} {e inner : List Char} :
    unwrap? name e = some inner ↔ e = enclose name inner ∧ inner ≠ [] ∧ Balanced inner := by
  rw [unwrap?, Option.filter_eq_some_iff, Option.bind_eq_some_iff]
  simp only [dropStart?_eq_some_iff, dropClosing?_eq_some_iff, Bool.and_eq_true, balanced_iff]
  constructor
  · rintro ⟨⟨rest, rfl, rfl⟩, hne, hb⟩
    exact ⟨by simp [enclose], by simpa using hne, hb⟩
  · rintro ⟨rfl, hne, hb⟩
    exact ⟨⟨inner ++ ['>'], by simp [enclose], rfl⟩, by simpa using hne, hb⟩

/-- The name of a wrapper. -/
def Wrapper.name : Wrapper → String
  | nullable => "Option"
  | transparent => "Box"
  | array => "Vec"

/-- A type expression as it is meant: a plain text, or a wrapper around a type expression. -/
inductive Term where
  | leaf (text : String)
  | wrap (w : Wrapper) (inner : Term)

/-- The text is a wrapper around a balanced text that is not empty. -/
def IsWrapped (text : String) : Prop :=
  ∃ (w : Wrapper) (inner : String),
    text = w.name ++ "<" ++ inner ++ ">" ∧ inner ≠ "" ∧ Balanced inner.toList

/-- The primitive type that a name stands for. -/
def primitive? (name : String) : Option Primitive :=
  if name = "String" ∨ name = "IpAddr" then some .string
  else if name = "bool" then some .boolean
  else if name = "TempFile" then some .unknown
  else if name ∈ integerNames then some .number
  else none

namespace Term

/-- The text of a term. -/
def render : Term → String
  | leaf text => text
  | wrap w inner => w.name ++ "<" ++ inner.render ++ ">"

/-- The term may stand inside a wrapper: its plain text is not empty, balanced and no wrapper
around a text of that kind. -/
def IsInner : Term → Prop
  | leaf text => ¬IsWrapped text ∧ text ≠ "" ∧ Balanced text.toList
  | wrap _ inner => inner.IsInner

/-- The term is one of the grammar: a plain text that stands alone may be any text but a wrapper
around another. -/
def WellFormed : Term → Prop
  | leaf text => ¬IsWrapped text
  | wrap _ inner => inner.IsInner

/-- The type that a term means. -/
def meaning : Term → Ty
  | leaf text => ((primitive? text).map Ty.prim).getD (.ref text)
  | wrap .nullable inner => inner.meaning.nullable
  | wrap .transparent inner => inner.meaning
  | wrap .array inner => .array inner.meaning

lemma IsInner.wellFormed {t : Term} (h : t.IsInner) : t.WellFormed := by
  cases t with
  | leaf text => exact h.1
  | wrap w inner => exact h

lemma toList_render_wrap (w : Wrapper) (inner : Term) :
    (wrap w inner).render.toList = enclose w.name inner.render.toList := by
  simp [render, enclose]

lemma balanced_enclose (w : Wrapper) {inner : List Char} (h : Balanced inner) :
    Balanced (enclose w.name inner) := by
  have hname : (w.name.toList.all fun c => c != '<' && c != '>') = true := by
    cases w <;> decide
  have hplain : Balanced w.name.toList := .plain (by simpa using hname)
  exact hplain.append h.enclose

lemma IsInner.render_ne {t : Term} (h : t.IsInner) : t.render ≠ "" := by
  cases t with
  | leaf text => exact h.2.1
  | wrap w inner => simp [render]

lemma IsInner.balanced_render {t : Term} (h : t.IsInner) : Balanced t.render.toList := by
  induction t with
  | leaf text => exact h.2.2
  | wrap w inner ih =>
    rw [toList_render_wrap]
    exact balanced_enclose w (ih h)

lemma WellFormed.isInner {t : Term} (h : t.WellFormed) (hne : t.render ≠ "")
    (hb : Balanced t.render.toList) : t.IsInner := by
  cases t with
  | leaf text => exact ⟨h, hne, hb⟩
  | wrap w inner => exact h

lemma IsInner.isWrapped {w : Wrapper} {t : Term} (h : t.IsInner) :
    IsWrapped (wrap w t).render :=
  ⟨w, t.render, rfl, h.render_ne, h.balanced_render⟩

lemma exists_render (e : String) : ∃ t : Term, t.WellFormed ∧ t.render = e := by
  induction hn : e.length using Nat.strong_induction_on generalizing e with
  | _ n ih =>
    by_cases h : IsWrapped e
    · obtain ⟨w, inner, rfl, hne, hb⟩ := h
      have hlt : inner.length < n := by
        have hbracket : "<".length = 1 := rfl
        simp only [← hn, String.length_append]
        omega
      obtain ⟨t, ht, rfl⟩ := ih inner.length hlt inner rfl
      exact ⟨wrap w t, ht.isInner hne hb, rfl⟩
    · exact ⟨leaf e, h, rfl⟩

lemma enclose_inj {w w' : Wrapper} {x y : List Char} (h : enclose w.name x = enclose w'.name y) :
    w = w' ∧ x = y := by
  cases w <;> cases w' <;> simp_all [enclose, Wrapper.name]

lemma WellFormed.render_inj {t t' : Term} (h : t.WellFormed) (h' : t'.WellFormed)
    (heq : t.render = t'.render) : t = t' := by
  induction t generalizing t' with
  | leaf text =>
    cases t' with
    | leaf text' => exact congrArg leaf heq
    | wrap w' inner' =>
      have hplain : ¬IsWrapped (leaf text).render := h
      exact absurd (heq ▸ IsInner.isWrapped h') hplain
  | wrap w inner ih =>
    cases t' with
    | leaf text' =>
      have hplain : ¬IsWrapped (leaf text').render := h'
      exact absurd (heq ▸ IsInner.isWrapped h) hplain
    | wrap w' inner' =>
      have hlist := congrArg String.toList heq
      rw [toList_render_wrap, toList_render_wrap] at hlist
      obtain ⟨rfl, hinner⟩ := enclose_inj hlist
      have hterm := ih (IsInner.wellFormed h) (IsInner.wellFormed h') (String.toList_inj.mp hinner)
      rw [hterm]

end Term

lemma isWrapped_iff {text : String} :
    IsWrapped text ↔ ∃ (w : Wrapper) (inner : List Char),
      unwrap? w.name text.toList = some inner := by
  simp only [unwrap?_eq_some_iff, IsWrapped]
  constructor
  · rintro ⟨w, inner, rfl, hne, hb⟩
    exact ⟨w, inner.toList, by simp [enclose], by simpa using hne, hb⟩
  · rintro ⟨w, inner, heq, hne, hb⟩
    refine ⟨w, String.ofList inner, ?_, by simpa using hne, by simpa using hb⟩
    rw [← String.toList_inj, heq]
    simp [enclose]

/-- The names of a class. -/
def Atom.names : Atom → List String
  | exact name => [name]
  | integer => integerNames

lemma Atom.holds_iff {a : Atom} {text : String} : a.holds text.toList = true ↔ text ∈ a.names := by
  cases a with
  | exact name => simp [holds, names, String.toList_inj]
  | integer => simp only [holds, names, List.any_eq_true, beq_iff_eq, String.toList_inj,
      exists_eq_right]

lemma names_of_atom_mem {a : Atom} {p : Primitive} (h : Rule.atom a p ∈ rules) :
    ∀ name ∈ a.names, primitive? name = some p ∧ '<' ∉ name.toList := by
  simp only [rules, List.mem_cons, Rule.atom.injEq, reduceCtorEq, false_or, or_false,
    List.not_mem_nil] at h
  rcases h with ⟨rfl, rfl⟩ | ⟨rfl, rfl⟩ | ⟨rfl, rfl⟩ | ⟨rfl, rfl⟩ | ⟨rfl, rfl⟩ <;> decide

lemma exists_atom_of_primitive? {text : String} {p : Primitive} (h : primitive? text = some p) :
    ∃ a, Rule.atom a p ∈ rules ∧ text ∈ a.names := by
  unfold primitive? at h
  split_ifs at h with hstring hbool hfile hinteger
  · obtain rfl := Option.some.inj h
    rcases hstring with rfl | rfl
    · exact ⟨.exact "String", by simp [rules], by simp [Atom.names]⟩
    · exact ⟨.exact "IpAddr", by simp [rules], by simp [Atom.names]⟩
  · obtain rfl := Option.some.inj h
    exact ⟨.exact "bool", by simp [rules], by simp [Atom.names, hbool]⟩
  · obtain rfl := Option.some.inj h
    exact ⟨.exact "TempFile", by simp [rules], by simp [Atom.names, hfile]⟩
  · obtain rfl := Option.some.inj h
    exact ⟨.integer, by simp [rules], hinteger⟩

lemma findSome?_eq_of_agree {α β : Type} {f : α → Option β} {xs : List α} {b : β}
    (hsome : ∃ x ∈ xs, f x = some b) (hagree : ∀ x ∈ xs, f x = none ∨ f x = some b) :
    xs.findSome? f = some b := by
  induction xs with
  | nil => simp at hsome
  | cons x xs ih =>
    rcases hagree x (by simp) with hx | hx
    · rw [List.findSome?_cons_of_isNone (by simp [hx])]
      refine ih ?_ fun y hy => hagree y (by simp [hy])
      simpa [hx] using hsome
    · simp [hx]

lemma wrapper_mem_rules (w : Wrapper) : Rule.wrapper w.name w ∈ rules := by
  cases w <;> simp [rules, Wrapper.name]

lemma name_of_wrapper_mem {name : String} {w : Wrapper} (h : Rule.wrapper name w ∈ rules) :
    name = w.name := by
  simp only [rules, List.mem_cons, Rule.wrapper.injEq, reduceCtorEq, false_or, or_false,
    List.not_mem_nil] at h
  rcases h with ⟨rfl, rfl⟩ | ⟨rfl, rfl⟩ | ⟨rfl, rfl⟩ <;> rfl

lemma reading?_atom {e : List Char} {a : Atom} {p : Primitive} (h : a.holds e = true) :
    (Rule.atom a p).reading? e = some (.primitive p) := by
  simp [Rule.reading?, h]

lemma reading?_atom_eq_none {e : List Char} {a : Atom} {p : Primitive} (h : ¬a.holds e = true) :
    (Rule.atom a p).reading? e = none := by
  simp [Rule.reading?, h]

lemma reading?_wrapper {e inner : List Char} {name : String} {w : Wrapper}
    (h : unwrap? name e = some inner) :
    (Rule.wrapper name w).reading? e = some (.wrapped w inner (length_lt_of_unwrap? h)) := by
  rw [Rule.reading?]
  split
  · next inner' h' =>
    obtain rfl : inner = inner' := Option.some.inj (h ▸ h')
    rfl
  · next h' => simp [h] at h'

lemma reading?_wrapper_eq_none {e : List Char} {name : String} {w : Wrapper}
    (h : unwrap? name e = none) : (Rule.wrapper name w).reading? e = none := by
  rw [Rule.reading?]
  split
  · next h' => simp [h] at h'
  · rfl

lemma findSome?_rules_of_unwrap? {text : String} {inner : List Char} {w : Wrapper}
    (h : unwrap? w.name text.toList = some inner) :
    rules.findSome? (Rule.reading? text.toList) =
      some (.wrapped w inner (length_lt_of_unwrap? h)) := by
  obtain ⟨htext, -, -⟩ := unwrap?_eq_some_iff.mp h
  refine findSome?_eq_of_agree ⟨_, wrapper_mem_rules w, reading?_wrapper h⟩ ?_
  intro r hr
  cases r with
  | atom a p =>
    left
    apply reading?_atom_eq_none
    intro hholds
    obtain ⟨-, hplain⟩ := names_of_atom_mem hr text (Atom.holds_iff.mp hholds)
    rw [htext] at hplain
    simp [enclose] at hplain
  | wrapper name w' =>
    obtain rfl := name_of_wrapper_mem hr
    cases h' : unwrap? w'.name text.toList with
    | none => exact .inl (reading?_wrapper_eq_none h')
    | some inner' =>
      obtain ⟨htext', -, -⟩ := unwrap?_eq_some_iff.mp h'
      obtain ⟨rfl, rfl⟩ := Term.enclose_inj (htext.symm.trans htext')
      exact .inr (reading?_wrapper h)

lemma reading?_wrapper_of_plain {text name : String} {w : Wrapper}
    (hr : Rule.wrapper name w ∈ rules) (h : ¬IsWrapped text) :
    (Rule.wrapper name w).reading? text.toList = none := by
  obtain rfl := name_of_wrapper_mem hr
  apply reading?_wrapper_eq_none
  rw [Option.eq_none_iff_forall_ne_some]
  intro inner hinner
  exact h (isWrapped_iff.mpr ⟨w, inner, hinner⟩)

lemma findSome?_rules_of_plain {text : String} (h : ¬IsWrapped text) :
    rules.findSome? (Rule.reading? text.toList) = (primitive? text).map .primitive := by
  cases hp : primitive? text with
  | none =>
    rw [Option.map_none, List.findSome?_eq_none_iff]
    intro r hr
    cases r with
    | atom a p =>
      apply reading?_atom_eq_none
      intro hholds
      obtain ⟨hsome, -⟩ := names_of_atom_mem hr text (Atom.holds_iff.mp hholds)
      simp [hp] at hsome
    | wrapper name w => exact reading?_wrapper_of_plain hr h
  | some p =>
    obtain ⟨a, ha, hmem⟩ := exists_atom_of_primitive? hp
    refine findSome?_eq_of_agree ⟨_, ha, reading?_atom (Atom.holds_iff.mpr hmem)⟩ ?_
    intro r hr
    cases r with
    | atom a' p' =>
      by_cases hholds : a'.holds text.toList = true
      · obtain ⟨hsome, -⟩ := names_of_atom_mem hr text (Atom.holds_iff.mp hholds)
        obtain rfl : p = p' := Option.some.inj (hp ▸ hsome)
        exact .inr (reading?_atom hholds)
      · exact .inl (reading?_atom_eq_none hholds)
    | wrapper name w => exact .inl (reading?_wrapper_of_plain hr h)

lemma typeOf_wrap (w : Wrapper) {inner : String} (hne : inner ≠ "") (hb : Balanced inner.toList) :
    typeOf (w.name ++ "<" ++ inner ++ ">") = w.apply (typeOf inner) := by
  have hunwrap : unwrap? w.name (w.name ++ "<" ++ inner ++ ">").toList = some inner.toList :=
    unwrap?_eq_some_iff.mpr ⟨by simp [enclose], by simpa using hne, hb⟩
  rw [typeOf, typeOfChars, findSome?_rules_of_unwrap? hunwrap]
  rfl

lemma typeOf_plain {text : String} (h : ¬IsWrapped text) :
    typeOf text = ((primitive? text).map Ty.prim).getD (.ref text) := by
  rw [typeOf, typeOfChars, findSome?_rules_of_plain h]
  cases primitive? text with
  | none => simp
  | some p => rfl

lemma typeOf_render {t : Term} (h : t.WellFormed) : typeOf t.render = t.meaning := by
  induction t with
  | leaf text => exact typeOf_plain h
  | wrap w inner ih =>
    rw [Term.render, typeOf_wrap w (Term.IsInner.render_ne h) (Term.IsInner.balanced_render h),
      ih (Term.IsInner.wellFormed h)]
    cases w <;> rfl

/-- Every text is a type expression in exactly one way, and its type is what that term means. -/
theorem typeOf_eq_meaning (e : String) :
    (∃! t : Term, t.WellFormed ∧ t.render = e) ∧
      ∃ t : Term, t.WellFormed ∧ t.render = e ∧ typeOf e = t.meaning := by
  obtain ⟨t, ht, rfl⟩ := Term.exists_render e
  refine ⟨⟨t, ⟨ht, rfl⟩, ?_⟩, t, ht, rfl, typeOf_render ht⟩
  rintro t' ⟨ht', heq⟩
  exact ht'.render_inj ht heq

end SchemaClient.Schema.TypeExpr
