import SchemaClient.Json.Number
import SchemaClient.Text.Glyph

/-!
# Tokens of a JSON text

A JSON text is cut into tokens from left to right. Where a token breaks off, the list ends with a
mark that says why. A string that holds no Unicode text and a number that is out of range are
tokens without a value: whoever skips over them does not mind.
-/

namespace SchemaClient.Json

open SchemaClient.Text

/-- Why a JSON text is refused. -/
inductive Cause where
  /-- The text ends too early. -/
  | ended
  /-- The text is not JSON. -/
  | malformed
  /-- The text is JSON of another shape than expected. -/
  | mismatch
deriving DecidableEq, Repr, Inhabited

/-- Why reading stops, for a reader that skips over the value and for one that takes it. -/
structure Break where
  skipped : Cause
  taken : Cause
deriving DecidableEq, Repr, Inhabited

namespace Break

/-- The text ends. -/
def ended : Break := ⟨.ended, .ended⟩

/-- The text is not JSON. -/
def malformed : Break := ⟨.malformed, .malformed⟩

end Break

/-- The two pairs of brackets. -/
inductive Bracket where
  | square
  | curly
deriving DecidableEq, Repr, Inhabited

/-- A token. -/
inductive Token where
  | opening (b : Bracket)
  | closing (b : Bracket)
  | colon
  | comma
  | null
  | bool (b : Bool)
  | number (n : Option Number)
  | string (s : Option String)
  | broken (inString : Bool) (b : Break)
deriving DecidableEq, Repr, Inhabited

namespace Token

/-- The digit that a glyph is. -/
def digit? : Glyph → Option Nat
  | .char c => if c.isDigit then some (c.toNat - 48) else none
  | .stray _ => none

/-- The digits at the front, and the rest. -/
def spanDigits : List Glyph → List Nat × List Glyph
  | [] => ([], [])
  | g :: gs =>
    match digit? g with
    | some d => (d :: (spanDigits gs).1, (spanDigits gs).2)
    | none => ([], g :: gs)

/-- Why a number breaks off where a digit should stand. At the end of the text only a reader that
takes the number sees that the text ends. -/
def missingDigit (rest : List Glyph) : Break :=
  if rest.isEmpty then ⟨.malformed, .ended⟩ else .malformed

/-- One digit at least, and the rest. -/
def scanDigits (gs : List Glyph) : Except Break (List Nat × List Glyph) :=
  match spanDigits gs with
  | ([], rest) => .error (missingDigit rest)
  | p => .ok p

/-- The digits behind a point, if there is one. -/
def scanFraction : List Glyph → Except Break (List Nat × List Glyph)
  | .char '.' :: gs => scanDigits gs
  | gs => .ok ([], gs)

/-- A sign, if there is one: whether it is a minus. -/
def scanSign : List Glyph → Bool × List Glyph
  | .char '-' :: gs => (true, gs)
  | .char '+' :: gs => (false, gs)
  | gs => (false, gs)

/-- An exponent, if there is one. -/
def scanExponent : List Glyph → Except Break (Option (Bool × List Nat) × List Glyph)
  | g :: gs =>
    if g = .char 'e' ∨ g = .char 'E' then
      (scanDigits (scanSign gs).2).map fun p => (some ((scanSign gs).1, p.1), p.2)
    else .ok (none, g :: gs)
  | [] => .ok (none, [])

/-- A number after its sign. A zero in front of a further digit is refused. -/
def scanNumber (negative : Bool) (gs : List Glyph) : Except Break (NumberText × List Glyph) := do
  let (whole, gs) ← scanDigits gs
  if whole.head? = some 0 ∧ whole.length ≠ 1 then throw .malformed
  let (fraction, gs) ← scanFraction gs
  let (exponent, gs) ← scanExponent gs
  return (⟨negative, whole, fraction, exponent⟩, gs)

/-- The value of a hexadecimal digit. -/
def hexDigit? : Glyph → Option Nat
  | .stray _ => none
  | .char c =>
    if c.isDigit then some (c.toNat - 48)
    else if 'a' ≤ c ∧ c ≤ 'f' then some (c.toNat - 87)
    else if 'A' ≤ c ∧ c ≤ 'F' then some (c.toNat - 55)
    else none

/-- Four hexadecimal digits. The text ends too early if fewer than four bytes are left. -/
def scanHex : List Glyph → Except Cause (Nat × List Glyph)
  | a :: b :: c :: d :: gs =>
    match hexDigit? a, hexDigit? b, hexDigit? c, hexDigit? d with
    | some a, some b, some c, some d => .ok (((a * 16 + b) * 16 + c) * 16 + d, gs)
    | _, _, _, _ => .error .malformed
  | gs => .error (if Glyph.sizes gs < 4 then .ended else .malformed)

/-- Whether a number is the first half of a surrogate pair. -/
def isHighSurrogate (n : Nat) : Bool :=
  0xD800 ≤ n && n ≤ 0xDBFF

/-- Whether a number is the second half of a surrogate pair. -/
def isLowSurrogate (n : Nat) : Bool :=
  0xDC00 ≤ n && n ≤ 0xDFFF

/-- The character of a surrogate pair whose first half has been read. Without the second half there
is none, and the text goes on where it stood. -/
def scanLowSurrogate (high : Nat) : List Glyph → Except Cause (Option Char × List Glyph)
  | [] => .error .ended
  | [.char '\\'] => .error .ended
  | .char '\\' :: .char 'u' :: gs =>
    match scanHex gs with
    | .error c => .error c
    | .ok (low, rest) =>
      if isLowSurrogate low then
        .ok (some (Char.ofNat ((high - 0xD800) * 0x400 + (low - 0xDC00) + 0x10000)), rest)
      else .ok (none, .char '\\' :: .char 'u' :: gs)
  | gs => .ok (none, gs)

/-- The character that a letter behind a backslash stands for. -/
def escaped? (c : Char) : Option Char :=
  if c = '"' ∨ c = '\\' ∨ c = '/' then some c
  else if c = 'b' then some '\x08'
  else if c = 'f' then some '\x0c'
  else if c = 'n' then some '\n'
  else if c = 'r' then some '\r'
  else if c = 't' then some '\t'
  else none

/-- The character of an escape after its backslash; none for half a surrogate pair. -/
def scanEscape : List Glyph → Except Cause (Option Char × List Glyph)
  | [] => .error .ended
  | .stray _ :: _ => .error .malformed
  | .char c :: gs =>
    if c = 'u' then
      match scanHex gs with
      | .error e => .error e
      | .ok (n, rest) =>
        if isHighSurrogate n then scanLowSurrogate n rest
        else if isLowSurrogate n then .ok (none, rest)
        else .ok (some (Char.ofNat n), rest)
    else match escaped? c with
      | some d => .ok (some d, gs)
      | none => .error .malformed

/-- What is wrong with the part of a string that has been read. -/
inductive Flaw where
  | none
  /-- It holds a byte that belongs to no character: noticed at the end of the string. -/
  | stray
  /-- It holds half a surrogate pair: noticed at once. -/
  | surrogate
deriving DecidableEq, Repr

/-- Why a string breaks off, given what is wrong with it so far. -/
def Flaw.break (f : Flaw) (c : Cause) : Break :=
  ⟨c, if f = .surrogate then .malformed else c⟩

/-- The flaw of a string with one more byte that belongs to no character. -/
def Flaw.addStray (f : Flaw) : Flaw :=
  if f = .surrogate then .surrogate else .stray

theorem length_spanDigits (gs : List Glyph) : (spanDigits gs).2.length ≤ gs.length := by
  induction gs with
  | nil => simp [spanDigits]
  | cons g gs ih =>
    simp only [spanDigits]
    split
    · simp only [List.length_cons]
      omega
    · simp

theorem length_scanDigits {gs rest : List Glyph} {ds : List Nat}
    (h : scanDigits gs = .ok (ds, rest)) : rest.length < gs.length := by
  cases gs with
  | nil => simp [scanDigits, spanDigits] at h
  | cons g gs =>
    have := length_spanDigits gs
    cases hd : digit? g with
    | none => simp [scanDigits, spanDigits, hd] at h
    | some d =>
      simp [scanDigits, spanDigits, hd] at h
      simp [← h.2]
      omega

theorem length_scanFraction {gs rest : List Glyph} {ds : List Nat}
    (h : scanFraction gs = .ok (ds, rest)) : rest.length ≤ gs.length := by
  unfold scanFraction at h
  split at h
  · have := length_scanDigits h
    simp
    omega
  · simp_all

theorem length_scanSign (gs : List Glyph) : (scanSign gs).2.length ≤ gs.length := by
  unfold scanSign
  split <;> simp

theorem length_scanExponent {gs rest : List Glyph} {e : Option (Bool × List Nat)}
    (h : scanExponent gs = .ok (e, rest)) : rest.length ≤ gs.length := by
  unfold scanExponent at h
  split at h
  · next g gs =>
    split at h
    · cases hd : scanDigits (scanSign gs).2 with
      | error b => simp [hd, Except.map] at h
      | ok p =>
        have := length_scanDigits hd
        have := length_scanSign gs
        simp [hd, Except.map] at h
        simp [← h.2]
        omega
    · simp_all
  · simp_all

theorem length_scanNumber {negative : Bool} {gs rest : List Glyph} {t : NumberText}
    (h : scanNumber negative gs = .ok (t, rest)) : rest.length < gs.length := by
  unfold scanNumber at h
  simp only [bind, Except.bind] at h
  split at h
  · simp at h
  · next p hp =>
    have h₁ := length_scanDigits hp
    split at h
    · simp at h
    · split at h
      · simp at h
      · next q hq =>
        have h₂ := length_scanFraction hq
        split at h
        · simp at h
        · next r hr =>
          have h₃ := length_scanExponent hr
          simp [pure, Except.pure] at h
          rw [← h.2]
          omega

theorem length_scanHex {gs rest : List Glyph} {n : Nat} (h : scanHex gs = .ok (n, rest)) :
    rest.length ≤ gs.length := by
  unfold scanHex at h
  split at h
  · split at h <;> simp at h
    simp [← h.2]
    omega
  · simp at h

theorem length_scanLowSurrogate {high : Nat} {gs rest : List Glyph} {c : Option Char}
    (h : scanLowSurrogate high gs = .ok (c, rest)) : rest.length ≤ gs.length := by
  unfold scanLowSurrogate at h
  split at h
  · simp at h
  · simp at h
  · split at h
    · simp at h
    · next hx =>
      have := length_scanHex hx
      split at h
      · simp at h
        simp [← h.2]
        omega
      · simp at h
        simp [← h.2]
  · simp_all

theorem length_scanEscape {gs rest : List Glyph} {c : Option Char}
    (h : scanEscape gs = .ok (c, rest)) : rest.length ≤ gs.length := by
  unfold scanEscape at h
  split at h
  · simp at h
  · simp at h
  · split at h
    · split at h
      · simp at h
      · next hx =>
        have := length_scanHex hx
        split at h
        · have := length_scanLowSurrogate h
          simp
          omega
        · split at h <;> simp at h <;> simp [← h.2] <;> omega
    · split at h <;> simp at h
      simp [← h.2]

/-- A string after its opening quote; `acc` holds the characters read so far, the latest first. -/
def scanString (acc : List Char) (flaw : Flaw) :
    List Glyph → Except Break (Option String × List Glyph)
  | [] => .error (flaw.break .ended)
  | .stray _ :: gs => scanString acc flaw.addStray gs
  | .char c :: gs =>
    if c = '"' then
      .ok (if flaw = .none then some (String.ofList acc.reverse) else none, gs)
    else if c = '\\' then
      match _h : scanEscape gs with
      | .error e => .error (flaw.break e)
      | .ok (some d, rest) => scanString (d :: acc) flaw rest
      | .ok (none, rest) => scanString acc .surrogate rest
    else if c.toNat < 0x20 then .error .malformed
    else scanString (c :: acc) flaw gs
termination_by gs => gs.length
decreasing_by
  · simp
  · have := length_scanEscape _h
    simp
    omega
  · have := length_scanEscape _h
    simp
    omega
  · simp

theorem length_scanString {acc : List Char} {flaw : Flaw} {gs rest : List Glyph}
    {s : Option String} (h : scanString acc flaw gs = .ok (s, rest)) :
    rest.length ≤ gs.length := by
  fun_induction scanString acc flaw gs with
  | case1 => simp at h
  | case2 _ _ _ _ ih =>
    have := ih h
    simp
    omega
  | case3 => simp_all
  | case4 => simp at h
  | case5 _ _ _ _ _ he _ ih =>
    have := ih h
    have := length_scanEscape he
    simp
    omega
  | case6 _ _ _ _ he _ ih =>
    have := ih h
    have := length_scanEscape he
    simp
    omega
  | case7 => simp at h
  | case8 _ _ _ _ _ _ _ ih =>
    have := ih h
    simp
    omega

/-- The text after the remaining letters of a word. -/
def scanWord : List Char → List Glyph → Except Cause (List Glyph)
  | [], gs => .ok gs
  | _ :: _, [] => .error .ended
  | c :: cs, g :: gs => if g = .char c then scanWord cs gs else .error .malformed

theorem length_scanWord {cs : List Char} {gs rest : List Glyph}
    (h : scanWord cs gs = .ok rest) : rest.length ≤ gs.length := by
  induction cs generalizing gs with
  | nil => simp_all [scanWord]
  | cons c cs ih =>
    cases gs with
    | nil => simp [scanWord] at h
    | cons g gs =>
      simp only [scanWord] at h
      split at h
      · have := ih h
        simp
        omega
      · simp at h

/-- The token that a word stands for, and the text after it. -/
def ofWord (t : Token) : Except Cause (List Glyph) → Except Token (Token × List Glyph)
  | .ok rest => .ok (t, rest)
  | .error c => .error (.broken false ⟨c, c⟩)

/-- The token that a string stands for, and the text after it. -/
def ofString : Except Break (Option String × List Glyph) → Except Token (Token × List Glyph)
  | .ok (s, rest) => .ok (.string s, rest)
  | .error b => .error (.broken true b)

/-- The token that a number stands for, and the text after it. -/
def ofNumber : Except Break (NumberText × List Glyph) → Except Token (Token × List Glyph)
  | .ok (t, rest) => .ok (.number t.value?, rest)
  | .error b => .error (.broken false b)

/-- The token that a character is on its own. -/
def punctuation? : Char → Option Token
  | '[' => some (.opening .square)
  | ']' => some (.closing .square)
  | '\x7b' => some (.opening .curly)
  | '\x7d' => some (.closing .curly)
  | ':' => some .colon
  | ',' => some .comma
  | _ => none

/-- The number or word that begins with a character, and the text after it; the mark of a break
otherwise. -/
def scanPlain (c : Char) (gs : List Glyph) : Except Token (Token × List Glyph) :=
  if c = '-' then ofNumber (scanNumber true gs)
  else if c.isDigit then ofNumber (scanNumber false (.char c :: gs))
  else if c = 'n' then ofWord .null (scanWord "ull".toList gs)
  else if c = 't' then ofWord (.bool true) (scanWord "rue".toList gs)
  else if c = 'f' then ofWord (.bool false) (scanWord "alse".toList gs)
  else .error (.broken false .malformed)

/-- The token that begins with a character, and the text after it; the mark of a break otherwise. -/
def scan (c : Char) (gs : List Glyph) : Except Token (Token × List Glyph) :=
  match punctuation? c with
  | some t => .ok (t, gs)
  | none => if c = '"' then ofString (scanString [] .none gs) else scanPlain c gs

theorem length_ofWord {cs : List Char} {gs rest : List Glyph} {t u : Token}
    (h : ofWord u (scanWord cs gs) = .ok (t, rest)) : rest.length ≤ gs.length := by
  cases hw : scanWord cs gs with
  | error c => simp [hw, ofWord] at h
  | ok r =>
    simp [hw, ofWord] at h
    exact h.2 ▸ length_scanWord hw

theorem length_ofString {gs rest : List Glyph} {t : Token}
    (h : ofString (scanString [] .none gs) = .ok (t, rest)) : rest.length ≤ gs.length := by
  rcases hs : scanString [] .none gs with b | ⟨s, r⟩
  · simp [hs, ofString] at h
  · simp [hs, ofString] at h
    exact h.2 ▸ length_scanString hs

theorem length_ofNumber {negative : Bool} {gs rest : List Glyph} {t : Token}
    (h : ofNumber (scanNumber negative gs) = .ok (t, rest)) : rest.length < gs.length := by
  rcases hs : scanNumber negative gs with b | ⟨s, r⟩
  · simp [hs, ofNumber] at h
  · simp [hs, ofNumber] at h
    exact h.2 ▸ length_scanNumber hs

theorem length_scanPlain {c : Char} {gs rest : List Glyph} {t : Token}
    (h : scanPlain c gs = .ok (t, rest)) : rest.length ≤ gs.length := by
  unfold scanPlain at h
  split at h
  · exact Nat.le_of_lt (length_ofNumber h)
  split at h
  · exact Nat.le_of_lt_succ (length_ofNumber h)
  split at h
  · exact length_ofWord h
  split at h
  · exact length_ofWord h
  split at h
  · exact length_ofWord h
  simp at h

theorem length_scan {c : Char} {gs rest : List Glyph} {t : Token}
    (h : scan c gs = .ok (t, rest)) : rest.length ≤ gs.length := by
  unfold scan at h
  split at h
  · simp_all
  split at h
  · exact length_ofString h
  · exact length_scanPlain h

/-- Whether a character may stand between tokens. -/
def isBlank (c : Char) : Bool :=
  c == ' ' || c == '\n' || c == '\t' || c == '\r'

/-- The tokens of a text. -/
def ofGlyphs : List Glyph → List Token
  | [] => []
  | .stray _ :: _ => [.broken false .malformed]
  | .char c :: gs =>
    if isBlank c then ofGlyphs gs
    else match _h : scan c gs with
      | .ok (t, rest) => t :: ofGlyphs rest
      | .error t => [t]
termination_by gs => gs.length
decreasing_by
  · simp
  · have := length_scan _h
    simp
    omega

end Token

end SchemaClient.Json
