import SchemaClient.Proofs.Numeral
import SchemaClient.Proofs.QuotedText
import SchemaClient.Toml.Document

/-!
# Reading written lines of TOML

A line that names a table, or that gives a bare key a number or a quoted text, is cut into its
tokens and read as what it was written for, whatever lines follow it.
-/

namespace SchemaClient.Toml
open SchemaClient.Text

/-! ## Tokens -/

namespace Token

/-- The tokens of a text, however many more than needed may be read. -/
def Lexes (cs : List Char) (ts : List Token) : Prop :=
  ∀ fuel, cs.length ≤ fuel → ofCharsUpTo? fuel cs = some ts

lemma Lexes.nil : Lexes [] [] := by
  intro fuel _
  cases fuel <;> rfl

lemma Lexes.cons {c : Char} {cs rest : List Char} {t : Token} {ts : List Token}
    (hnext : next? c cs = some (some t, rest)) (hlength : rest.length ≤ cs.length)
    (h : Lexes rest ts) : Lexes (c :: cs) (t :: ts) := by
  intro fuel hfuel
  rw [List.length_cons] at hfuel
  cases fuel with
  | zero => omega
  | succ fuel =>
    rw [ofCharsUpTo?, hnext]
    simp only [Option.bind_eq_bind, Option.bind_some, h fuel (by omega)]
    rfl

lemma Lexes.punctuation {c : Char} {t : Token} (hc : punctuation? c = some t) {cs : List Char}
    {ts : List Token} (h : Lexes cs ts) : Lexes (c :: cs) (t :: ts) :=
  .cons (by rw [next?, hc]) (Nat.le_refl _) h

lemma Lexes.newline {cs : List Char} {ts : List Token} (h : Lexes cs ts) :
    Lexes ('\n' :: cs) (.newline :: ts) :=
  .cons rfl (Nat.le_refl _) h

/-- A run of characters ends in front of a character of another kind. -/
lemma run_stops {p : Char → Bool} {cs : List Char} (h : cs.head?.any p = false) :
    cs.takeWhile p = [] ∧ cs.dropWhile p = cs := by
  cases cs <;> simp_all

lemma Lexes.blank {cs : List Char} (hcs : cs.head?.any Quoted.isLineSpace = false)
    {ts : List Token} (h : Lexes cs ts) : Lexes (' ' :: cs) (.space [' '] :: ts) := by
  have hopening : Quoted.opening? (' ' :: cs) = none :=
    Quoted.opening?_eq_none (by decide) (by decide) cs
  refine .cons ?_ (Nat.le_refl _) h
  rw [next?, Quoted.afterBreak?_eq_none (by rfl), hopening]
  simp [punctuation?, Quoted.isLineSpace, run_stops hcs]

/-- A key, or a number, that needs no quotes. -/
def IsBare (cs : List Char) : Prop :=
  cs ≠ [] ∧ cs.all isKeyChar = true

instance (cs : List Char) : Decidable (IsBare cs) :=
  inferInstanceAs (Decidable (_ ∧ _))

lemma ne_of_isKeyChar {c : Char} (h : isKeyChar c) (d : Char) (hd : isKeyChar d = false) :
    c ≠ d := by
  rintro rfl
  exact Bool.noConfusion (h.symm.trans hd)

lemma punctuation?_of_isKeyChar {c : Char} (h : isKeyChar c) : punctuation? c = none := by
  unfold punctuation?
  split <;> first | rfl | exact absurd rfl (ne_of_isKeyChar h _ rfl)

lemma isAtomChar_of_isKeyChar {c : Char} (h : isKeyChar c) : isAtomChar c := by
  have hne := ne_of_isKeyChar h
  simp [isAtomChar, punctuation?_of_isKeyChar h, Quoted.isLineSpace, hne ' ' rfl, hne '\t' rfl,
    hne '#' rfl, hne '\n' rfl, hne '\r' rfl]

lemma Lexes.bare {cs rest : List Char} (hcs : IsBare cs)
    (hrest : rest.head?.any isAtomChar = false) {ts : List Token} (h : Lexes rest ts) :
    Lexes (cs ++ rest) (.atom cs :: ts) := by
  obtain ⟨c, cs, rfl⟩ := List.exists_cons_of_ne_nil hcs.1
  obtain ⟨hc, hall⟩ := List.forall_mem_cons.1 (List.all_eq_true.1 hcs.2)
  have hatom : ∀ d ∈ cs, isAtomChar d := fun d hd => isAtomChar_of_isKeyChar (hall d hd)
  have hstop := run_stops hrest
  -- Quotes may stand in an atom, but not at its beginning: there a quoted text begins.
  have hne := ne_of_isKeyChar hc
  have hbreak : Quoted.afterBreak? (c :: (cs ++ rest)) = none :=
    Quoted.afterBreak?_eq_none (by simp [Quoted.beginsBreak, hne '\n' rfl, hne '\r' rfl])
  refine .cons ?_ (by simp) h
  rw [List.append_eq, next?, punctuation?_of_isKeyChar hc, hbreak,
    Quoted.opening?_eq_none (hne '"' rfl) (hne '\'' rfl)]
  simp only []
  rw [if_neg (hne '#' rfl), if_neg (by simp [Quoted.isLineSpace, hne ' ' rfl, hne '\t' rfl]),
    if_pos (isAtomChar_of_isKeyChar hc), List.takeWhile_append_of_pos hatom,
    List.dropWhile_append_of_pos hatom, hstop.1, hstop.2, List.append_nil]

/-- The token of a quoted text. -/
def ofQuoted (cs : List Char) : Token :=
  .quoted (isOneLine (Quoted.choose cs)) cs

lemma exists_write_eq_cons (cs : List Char) :
    ∃ c w, Quoted.write cs = c :: w ∧ (c = '"' ∨ c = '\'') := by
  unfold Quoted.write
  cases Quoted.choose cs <;> exact ⟨_, _, rfl, by decide⟩

lemma Lexes.quoted (cs : List Char) {rest : List Char} (hdouble : rest.head? ≠ some '"')
    (hsingle : rest.head? ≠ some '\'') {ts : List Token} (h : Lexes rest ts) :
    Lexes (Quoted.write cs ++ rest) (ofQuoted cs :: ts) := by
  obtain ⟨body, hopening, hbody⟩ := Quoted.read_write cs hdouble hsingle
  obtain ⟨c, w, hw, hc⟩ := exists_write_eq_cons cs
  rw [hw, List.cons_append] at hopening ⊢
  have hfirst : punctuation? c = none ∧ Quoted.afterBreak? (c :: (w ++ rest)) = none := by
    obtain rfl | rfl := hc <;> exact ⟨rfl, rfl⟩
  refine .cons ?_ (by simp) h
  rw [next?, hfirst.1, hfirst.2, hopening]
  simp only [hbody, Option.map_some]
  rfl

/-- The tokens of the line that names a table. -/
def ofHeader (name : String) : List Token :=
  [.openSquare, .atom name.toList, .closeSquare, .newline]

/-- The tokens of the line that gives a key a value of one token. -/
def ofEntry (key : String) (t : Token) : List Token :=
  [.atom key.toList, .space [' '], .equals, .space [' '], t, .newline]

/-- A text that is one token when the line ends behind it. -/
structure IsTokenText (cs : List Char) (t : Token) : Prop where
  noBlank : ∀ rest, (cs ++ '\n' :: rest).head?.any Quoted.isLineSpace = false
  lexes : ∀ {rest ts}, Lexes ('\n' :: rest) ts → Lexes (cs ++ '\n' :: rest) (t :: ts)

lemma isTokenText_bare {cs : List Char} (hcs : IsBare cs) : IsTokenText cs (.atom cs) where
  noBlank rest := by
    obtain ⟨c, cs, rfl⟩ := List.exists_cons_of_ne_nil hcs.1
    have hne := ne_of_isKeyChar (List.all_eq_true.1 hcs.2 c List.mem_cons_self)
    simp [Quoted.isLineSpace, hne ' ' rfl, hne '\t' rfl]
  lexes := .bare hcs rfl

lemma isTokenText_quoted (cs : List Char) : IsTokenText (Quoted.write cs) (ofQuoted cs) where
  noBlank rest := by
    obtain ⟨c, w, hw, hc⟩ := exists_write_eq_cons cs
    rw [hw]
    obtain rfl | rfl := hc <;> rfl
  lexes := .quoted cs (by simp) (by simp)

lemma Lexes.header (name : String) (hname : IsBare name.toList) {cs : List Char}
    {ts : List Token} (h : Lexes cs ts) :
    Lexes ('[' :: (name.toList ++ ']' :: '\n' :: cs)) (ofHeader name ++ ts) :=
  .punctuation rfl (.bare hname rfl (.punctuation rfl (.newline h)))

lemma Lexes.entry (key : String) (hkey : IsBare key.toList) {value cs : List Char} {t : Token}
    (hvalue : IsTokenText value t) {ts : List Token} (h : Lexes cs ts) :
    Lexes (key.toList ++ ' ' :: '=' :: ' ' :: (value ++ '\n' :: cs)) (ofEntry key t ++ ts) := by
  have hrest : Lexes (' ' :: (value ++ '\n' :: cs)) (.space [' '] :: t :: .newline :: ts) :=
    .blank (hvalue.noBlank cs) (hvalue.lexes (.newline h))
  exact .bare hkey rfl (.blank rfl (.punctuation rfl hrest))

end Token

/-! ## Numbers -/

namespace Scalar

/-- The value of a decimal digit. -/
def digitValue (c : Char) : Nat :=
  c.toNat - '0'.toNat

lemma digitOf?_ten {c : Char} (h : c.isDigit) : digitOf? 10 c = some (digitValue c) := by
  simp only [Char.isDigit, Bool.and_eq_true, decide_eq_true_eq] at h
  have hle : '0' ≤ c ∧ c ≤ '9' := h
  have hlt : c.toNat - 48 < 10 := by
    have : c.toNat ≤ 57 := h.2
    omega
  rw [digitOf?, Quoted.hexValue?, if_pos hle]
  exact Option.filter_some_pos (decide_eq_true hlt)

lemma furtherDigits?_ten {cs : List Char} (h : ∀ c ∈ cs, c.isDigit) :
    furtherDigits? 10 cs = some (cs.map digitValue) := by
  induction cs with
  | nil => rfl
  | cons c cs ih =>
    obtain ⟨hc, hcs⟩ := List.forall_mem_cons.1 h
    have hunderscore : c ≠ '_' := by
      rintro rfl
      exact Bool.noConfusion hc
    rw [furtherDigits?, digitOf?_ten hc, ih hcs]
    · rfl
    · rintro d ds rfl
      contradiction

lemma digits?_ten {cs : List Char} (hne : cs ≠ []) (h : ∀ c ∈ cs, c.isDigit) :
    digits? 10 cs = some (cs.map digitValue) := by
  obtain ⟨c, cs, rfl⟩ := List.exists_cons_of_ne_nil hne
  obtain ⟨hc, hcs⟩ := List.forall_mem_cons.1 h
  rw [digits?, digitOf?_ten hc, furtherDigits?_ten hcs]
  rfl

lemma isWhole_toDigits (n : Nat) : isWhole ((Nat.toDigits 10 n).map digitValue) := by
  rcases Nat.eq_zero_or_pos n with rfl | hn
  · rw [Nat.toDigits_zero]
    rfl
  · have hhead := head?_toDigits hn
    have hdigit := isDigit_of_mem_toDigits (n := n)
    unfold isWhole
    split
    · next heq =>
      obtain ⟨c, cs, hcs, hc, -⟩ := List.map_eq_cons_iff.1 heq
      have hne : c ≠ '0' := by
        rintro rfl
        simp [hcs] at hhead
      have hpos := value_pos_of_isDigit (hdigit c (by simp [hcs])) hne
      exact absurd hc (Nat.ne_of_gt hpos)
    · rfl

lemma ofDigits_toDigits (n : Nat) : ofDigits 10 ((Nat.toDigits 10 n).map digitValue) = n := by
  rw [ofDigits, List.foldl_map]
  exact Nat.ofDigitChars_ten_toDigits

section Decimal

variable {cs : List Char} (hdigit : ∀ c ∈ cs, c.isDigit)
include hdigit

/-- No sign, no mark of a base and no letter stands among digits. -/
lemma not_mem_of_isDigit {d : Char} (hd : d.isDigit = false) : d ∉ cs :=
  fun hmem => Bool.noConfusion ((hdigit d hmem).symm.trans hd)

lemma splitSign_of_isDigit : splitSign cs = (false, cs) := by
  unfold splitSign
  split
  · exact absurd List.mem_cons_self (not_mem_of_isDigit hdigit (d := '-') rfl)
  · exact absurd List.mem_cons_self (not_mem_of_isDigit hdigit (d := '+') rfl)
  · rfl

lemma isSigned_of_isDigit : isSigned cs = false := by
  have hminus : cs.head? ≠ some '-' := fun h =>
    not_mem_of_isDigit hdigit (d := '-') rfl (List.mem_of_head? h)
  have hplus : cs.head? ≠ some '+' := fun h =>
    not_mem_of_isDigit hdigit (d := '+') rfl (List.mem_of_head? h)
  simp [isSigned, hminus, hplus]

lemma integer?_of_isDigit (hne : cs ≠ []) (hwhole : isWhole (cs.map digitValue)) :
    integer? cs = some (.integer (ofDigits 10 (cs.map digitValue))) := by
  have hwholeDigits : wholeDigits? false cs = some (cs.map digitValue) := by
    rw [wholeDigits?, digits?_ten hne hdigit, Option.filter_some_pos hwhole]
    rintro ds h
    exact Bool.noConfusion h
  have hsecond {c d : Char} {ds : List Char} (hd : d.isDigit = false) : cs ≠ c :: d :: ds := by
    rintro rfl
    exact not_mem_of_isDigit hdigit hd (by simp)
  unfold integer?
  split
  · exact absurd rfl (hsecond rfl)
  · exact absurd rfl (hsecond rfl)
  · exact absurd rfl (hsecond rfl)
  · rw [splitSign_of_isDigit hdigit, isSigned_of_isDigit hdigit]
    simp only [hwholeDigits]
    rfl

end Decimal

/-- A number is read back from its decimal digits. -/
lemma ofChars?_toDigits (n : Nat) : ofChars? (Nat.toDigits 10 n) = some (.integer n) := by
  have hdigit := isDigit_of_mem_toDigits (n := n)
  have htrue : Nat.toDigits 10 n ≠ "true".toList := fun heq =>
    not_mem_of_isDigit hdigit (d := 't') rfl (by simp [heq])
  have hfalse : Nat.toDigits 10 n ≠ "false".toList := fun heq =>
    not_mem_of_isDigit hdigit (d := 'f') rfl (by simp [heq])
  rw [ofChars?, if_neg htrue, if_neg hfalse,
    integer?_of_isDigit hdigit Nat.toDigits_ne_nil (isWhole_toDigits n), ofDigits_toDigits]

end Scalar

lemma Token.isBare_toDigits (n : Nat) : Token.IsBare (Nat.toDigits 10 n) := by
  refine ⟨Nat.toDigits_ne_nil, List.all_eq_true.2 fun c hc => ?_⟩
  simp [Token.isKeyChar, Char.isAlphanum, isDigit_of_mem_toDigits c hc]

/-! ## Tables that grow at their end -/

namespace Entries

variable {es : Entries} {k : String}

lemma put_of_fresh (h : es.lookup k = none) (n : Node) : es.put k n = es ++ [(k, n)] := by
  have hkeep : es.filter (·.1 != k) = es := by
    refine List.filter_eq_self.2 fun e he => ?_
    simpa [bne_comm] using List.lookup_eq_none_iff.1 h e he
  rw [put, hkeep]

lemma put_last (h : es.lookup k = none) (m n : Node) :
    put k n (es ++ [(k, m)]) = es ++ [(k, n)] := by
  have hdrop : (es ++ [(k, m)]).put k n = es.put k n := by
    simp [put, List.filter_append]
  rw [hdrop, put_of_fresh h]

lemma lookup_last (h : es.lookup k = none) (n : Node) :
    List.lookup k (es ++ [(k, n)]) = some n := by
  simp [List.lookup_append, h]

end Entries

/-! ## Lines -/

namespace Document
open Token

/-- A token that is a value when the line ends behind it. -/
def IsValue (t : Token) (v : Value) : Prop :=
  ∀ ts, value? maxLevels (skipSpace (t :: .newline :: ts)) = some (v, .newline :: ts)

lemma isValue_number (n : Nat) :
    IsValue (.atom (Nat.toDigits 10 n)) (.scalar (.integer n)) := by
  intro ts
  simp [skipSpace, value?, scalar?, atomChars, Scalar.ofChars?_toDigits]

lemma isValue_quoted (cs : List Char) : IsValue (ofQuoted cs) (.scalar (.string cs)) := by
  intro ts
  simp [skipSpace, value?, scalar?, ofQuoted]

/-- The lines lead from one state of the document to another and end there. -/
def Reads (s : State) (ts : List Token) (s' : State) : Prop :=
  ∀ fuel, ts.length < fuel → lines? fuel s ts = some s'

lemma Reads.nil (s : State) : Reads s [] s := by
  intro fuel hfuel
  cases fuel with
  | zero => exact absurd hfuel (Nat.not_lt_zero _)
  | succ fuel => rfl

lemma Reads.newline {s s' : State} {ts : List Token} (h : Reads s ts s') :
    Reads s (.newline :: ts) s' := by
  intro fuel hfuel
  rw [← h fuel (Nat.lt_of_succ_lt hfuel)]
  cases fuel <;> rfl

lemma Reads.line {s s₁ s' : State} {t : Token} {ts rest : List Token}
    (hstart : skipLines (t :: ts) = t :: ts)
    (hline : line? s (t :: ts) = some (s₁, .newline :: rest)) (hlength : rest.length ≤ ts.length)
    (h : Reads s₁ rest s') : Reads s (t :: ts) s' := by
  intro fuel hfuel
  rw [List.length_cons] at hfuel
  cases fuel with
  | zero => omega
  | succ fuel =>
    rw [lines?, hstart]
    simp only [hline, Option.bind_eq_bind, Option.bind_some]
    exact h fuel (by omega)

lemma key?_bare {k : String} (hk : IsBare k.toList) {ts : List Token}
    (hts : (skipSpace ts).head? ≠ some .dot) :
    key? (.atom k.toList :: ts) = some (([], k), skipSpace ts) := by
  have hpart : keyPart? (.atom k.toList) = some k := by
    rw [keyPart?, if_pos hk.2, String.ofList_toList]
  rw [key?, maxLevels, keyUpTo?, skipSpace]
  · simp only [hpart, Option.bind_eq_bind, Option.bind_some]
    split
    · next h => simp [h] at hts
    · rfl
  · rintro _ _ h
    cases h

/-- A document whose last table is that of the latest header. -/
def State.within (root : Entries) (name : String) (es : Entries) : State :=
  ⟨root ++ [(name, .table .named es)], [name]⟩

variable {root es : Entries} {name key : String} {ts : List Token} {s' : State}

lemma Reads.header (hname : IsBare name.toList) (hfresh : root.lookup name = none)
    {path : List String} (h : Reads (.within root name []) ts s') :
    Reads ⟨root, path⟩ (ofHeader name ++ ts) s' := by
  have hopen : root.openTable? [] name = some (root ++ [(name, .table .named [])]) := by
    simp [Entries.openTable?, Entries.extend?, hfresh, Entries.put_of_fresh hfresh]
  have hline : line? ⟨root, path⟩ (ofHeader name ++ ts) =
      some (.within root name [], .newline :: ts) := by
    show header? ⟨root, path⟩ false (.atom name.toList :: .closeSquare :: .newline :: ts) = _
    rw [header?, key?_bare hname (by simp [skipSpace])]
    simp [skipSpace, hopen, State.within]
  exact .line rfl hline (by simp; omega) h

lemma Reads.entry (hkey : IsBare key.toList) {t : Token} {v : Value} (hvalue : IsValue t v)
    (hroot : root.lookup name = none) (hfresh : es.lookup key = none)
    (h : Reads (.within root name (es ++ [(key, .closed v)])) ts s') :
    Reads (.within root name es) (ofEntry key t ++ ts) s' := by
  have hline : line? (.within root name es) (ofEntry key t ++ ts) =
      some (.within root name (es ++ [(key, .closed v)]), .newline :: ts) := by
    show entry? (.within root name es)
      (.atom key.toList :: .space [' '] :: .equals :: .space [' '] :: t :: .newline :: ts) = _
    unfold entry?
    rw [key?_bare hkey (by simp [skipSpace])]
    simp [skipSpace, hvalue ts, State.within, Entries.extend?, Entries.insert?,
      Entries.lookup_last hroot, Entries.put_last hroot, hfresh, Entries.put_of_fresh hfresh]
  exact .line rfl hline (by simp; omega) h

end Document

end SchemaClient.Toml
