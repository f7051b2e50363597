import Mathlib.Data.List.Infix
import Mathlib.Tactic.Lemma
import SchemaClient.Code.Printer

/-!
# The lexemes of declarations

The text of a declaration is cut into words, string literals and marks. White space between them
has no meaning, so the level at which a declaration is printed is lost here and nowhere else.
-/

namespace SchemaClient.Code
open SchemaClient.Text (indent)

/-- The smallest pieces of a declaration that have a meaning. -/
inductive Lexeme where
  | word (text : String)
  | literal (text : String)
  | mark (c : Char)

/-- The character may stand between lexemes. -/
def isBlank (c : Char) : Bool :=
  c == ' ' || c == '\n'

/-- The character belongs to a word. Every character beyond ASCII does. -/
def isWordChar (c : Char) : Bool :=
  c.isAlphanum || c == '_' || c == '$' || 0x80 ≤ c.toNat

/-- The text is a word. -/
def isWord (text : String) : Bool :=
  !text.toList.isEmpty && text.toList.all isWordChar

/-- A name of the language: a word that does not begin with a digit. -/
def IsIdentifier (name : String) : Prop :=
  isWord name = true ∧ name.toList.head?.any Char.isDigit = false

instance (name : String) : Decidable (IsIdentifier name) :=
  inferInstanceAs (Decidable (_ ∧ _))

/-- The text of a string literal behind its opening quote, and what follows its closing quote. -/
def readLiteral? : List Char → Option (List Char × List Char)
  | [] => none
  | '\\' :: c :: cs =>
    if c = '"' ∨ c = '\\' then (readLiteral? cs).map fun p => (c :: p.1, p.2) else none
  | c :: cs =>
    if c = '"' then some ([], cs)
    else if c = '\\' then none
    else (readLiteral? cs).map fun p => (c :: p.1, p.2)

lemma length_readLiteral? {cs text rest : List Char} (h : readLiteral? cs = some (text, rest)) :
    rest.length < cs.length := by
  fun_induction readLiteral? cs generalizing text with
  | case1 => simp at h
  | case2 c cs hc ih =>
    obtain ⟨p, hp, heq⟩ := Option.map_eq_some_iff.mp h
    obtain ⟨rfl, rfl⟩ := Prod.mk.inj heq
    have hlt := ih hp
    simp only [List.length_cons]
    omega
  | case3 => simp at h
  | case4 cs _ =>
    obtain ⟨rfl, rfl⟩ := Prod.mk.inj (Option.some.inj h)
    simp
  | case5 => simp at h
  | case6 c cs _ _ _ ih =>
    obtain ⟨p, hp, heq⟩ := Option.map_eq_some_iff.mp h
    obtain ⟨rfl, rfl⟩ := Prod.mk.inj heq
    have hlt := ih hp
    simp only [List.length_cons]
    omega

/-- The lexemes of a text. A quote that opens no string literal ends them as a mark. -/
def lexemes : List Char → List Lexeme
  | [] => []
  | c :: cs =>
    if isBlank c then lexemes cs
    else if isWordChar c then
      .word (String.ofList (c :: cs.takeWhile isWordChar)) :: lexemes (cs.dropWhile isWordChar)
    else if c = '"' then
      match _h : readLiteral? cs with
      | some (text, rest) => .literal (String.ofList text) :: lexemes rest
      | none => [.mark c]
    else .mark c :: lexemes cs
termination_by cs => cs.length
decreasing_by
  · simp
  · exact Nat.lt_succ_of_le (List.dropWhile_sublist _).length_le
  · exact Nat.lt_succ_of_lt (length_readLiteral? _h)
  · simp

@[simp] lemma lexemes_nil : lexemes [] = [] := by
  rw [lexemes]

@[simp] lemma lexemes_space (cs : List Char) : lexemes (' ' :: cs) = lexemes cs := by
  rw [lexemes, if_pos (by decide)]

@[simp] lemma lexemes_newline (cs : List Char) : lexemes ('\n' :: cs) = lexemes cs := by
  rw [lexemes, if_pos (by decide)]

/-- The character is a lexeme of its own. -/
def isMark (c : Char) : Bool :=
  !isBlank c && !isWordChar c && c != '"'

lemma lexemes_mark {c : Char} (h : isMark c = true) (cs : List Char) :
    lexemes (c :: cs) = .mark c :: lexemes cs := by
  simp only [isMark, Bool.and_eq_true, Bool.not_eq_true', bne_iff_ne] at h
  rw [lexemes, if_neg (by simp [h.1.1]), if_neg (by simp [h.1.2]), if_neg h.2]

@[simp] lemma lexemes_indent (level : Nat) (rest : List Char) :
    lexemes ((indent level).toList ++ rest) = lexemes rest := by
  have hblank (n : Nat) : lexemes (List.replicate n ' ' ++ rest) = lexemes rest := by
    induction n with
    | zero => rfl
    | succ n ih => rw [List.replicate_succ, List.cons_append, lexemes_space, ih]
  rw [indent, String.toList_ofList, hblank]

lemma not_isBlank_of_isWordChar {c : Char} (h : isWordChar c = true) : isBlank c = false := by
  rw [isBlank, Bool.or_eq_false_iff, beq_eq_false_iff_ne, beq_eq_false_iff_ne]
  refine ⟨?_, ?_⟩ <;> rintro rfl <;> exact absurd h (by decide)

/-- The text does not go on with a character of a word. -/
def EndsWord (rest : List Char) : Prop :=
  ∀ c ∈ rest.head?, isWordChar c = false

lemma endsWord_cons {c : Char} (h : isWordChar c = false) (rest : List Char) :
    EndsWord (c :: rest) := by
  intro d hd
  obtain rfl : c = d := by simpa using hd
  exact h

lemma EndsWord.takeWhile_append {rest : List Char} (hrest : EndsWord rest) {cs : List Char}
    (hcs : ∀ c ∈ cs, isWordChar c = true) :
    (cs ++ rest).takeWhile isWordChar = cs ∧ (cs ++ rest).dropWhile isWordChar = rest := by
  rw [List.takeWhile_append_of_pos hcs, List.dropWhile_append_of_pos hcs]
  cases rest with
  | nil => simp
  | cons c rest => simp [hrest c (by simp)]

lemma lexemes_word {word : String} (hword : isWord word = true) {rest : List Char}
    (hrest : EndsWord rest) : lexemes (word.toList ++ rest) = .word word :: lexemes rest := by
  rw [isWord, Bool.and_eq_true, Bool.not_eq_true', List.isEmpty_eq_false_iff, List.all_eq_true]
    at hword
  obtain ⟨hne, hchars⟩ := hword
  obtain ⟨c, cs, hcs⟩ := List.exists_cons_of_ne_nil hne
  rw [hcs] at hchars
  obtain ⟨hc, hcs'⟩ := List.forall_mem_cons.mp hchars
  obtain ⟨htake, hdrop⟩ := hrest.takeWhile_append hcs'
  rw [hcs, List.cons_append, lexemes, if_neg (by simp [not_isBlank_of_isWordChar hc]), if_pos hc,
    htake, hdrop, ← hcs, String.ofList_toList]

lemma IsIdentifier.lexemes {name : String} (h : IsIdentifier name) {rest : List Char}
    (hrest : EndsWord rest) :
    Code.lexemes (name.toList ++ rest) = .word name :: Code.lexemes rest :=
  lexemes_word h.1 hrest

lemma readLiteral?_escapeLiteral (text rest : List Char) :
    readLiteral? (escapeLiteral text ++ '"' :: rest) = some (text, rest) := by
  induction text with
  | nil => simp [escapeLiteral, readLiteral?]
  | cons c text ih =>
    rw [escapeLiteral]
    split
    · next hc => simp [readLiteral?, hc, ih]
    · next hc =>
      obtain ⟨hquote, hslash⟩ := not_or.mp hc
      simp [readLiteral?, hquote, hslash, ih]

@[simp] lemma lexemes_quote (text : String) (rest : List Char) :
    lexemes ((quote text).toList ++ rest) = .literal text :: lexemes rest := by
  have hquote : (quote text).toList ++ rest =
      '"' :: (escapeLiteral text.toList ++ '"' :: rest) := by
    simp [quote]
  rw [hquote, lexemes, if_neg (by decide), if_neg (by decide), if_pos rfl]
  split
  · next found rest' h =>
    rw [readLiteral?_escapeLiteral] at h
    obtain ⟨rfl, rfl⟩ := Prod.mk.inj (Option.some.inj h)
    rw [String.ofList_toList]
  · next h => simp [readLiteral?_escapeLiteral] at h

end SchemaClient.Code
