/-!
# Bytes as text

A sequence of bytes read as UTF-8: every well-formed sequence is a character, and a byte that
belongs to none stands for itself. A text is read as the sequence of its characters.
-/

namespace SchemaClient.Text

/-- A character, or a byte that belongs to no well-formed character. -/
inductive Glyph where
  | char (c : Char)
  | stray (b : UInt8)
deriving DecidableEq, Repr, Inhabited

namespace Glyph

/-- How many bytes a glyph takes. -/
def size : Glyph → Nat
  | .char c => c.utf8Size
  | .stray _ => 1

/-- How many bytes glyphs take. -/
def sizes : List Glyph → Nat
  | [] => 0
  | g :: gs => g.size + sizes gs

/-- The bytes of a glyph. -/
def bytes : Glyph → List UInt8
  | .char c => String.utf8EncodeChar c
  | .stray b => [b]

/-- The glyphs of a text. -/
def ofString (s : String) : List Glyph :=
  s.toList.map .char

/-- Whether a byte continues a character. -/
def isTail (b : UInt8) : Bool :=
  0x80 ≤ b && b ≤ 0xBF

/-- The lowest six bits of a byte that continues a character. -/
def tailBits (b : UInt8) : Nat :=
  b.toNat % 64

/-- The character that bytes begin with, and the bytes after it. -/
def char? : List UInt8 → Option (Char × List UInt8)
  | [] => none
  | a :: bs =>
    if a ≤ 0x7F then some (Char.ofNat a.toNat, bs)
    else if 0xC2 ≤ a && a ≤ 0xDF then
      match bs with
      | b :: bs =>
        if isTail b then some (Char.ofNat (a.toNat % 32 * 64 + tailBits b), bs) else none
      | _ => none
    else if 0xE0 ≤ a && a ≤ 0xEF then
      match bs with
      | b :: c :: bs =>
        let n := a.toNat % 16 * 4096 + tailBits b * 64 + tailBits c
        if isTail b && isTail c && 0x800 ≤ n && !(0xD800 ≤ n && n ≤ 0xDFFF) then
          some (Char.ofNat n, bs)
        else none
      | _ => none
    else if 0xF0 ≤ a && a ≤ 0xF4 then
      match bs with
      | b :: c :: d :: bs =>
        let n := a.toNat % 8 * 262144 + tailBits b * 4096 + tailBits c * 64 + tailBits d
        if isTail b && isTail c && isTail d && 0x10000 ≤ n && n ≤ 0x10FFFF then
          some (Char.ofNat n, bs)
        else none
      | _ => none
    else none

theorem length_char? {bs rest : List UInt8} {c : Char} (h : char? bs = some (c, rest)) :
    rest.length < bs.length := by
  unfold char? at h
  repeat' split at h
  all_goals grind

/-- The glyphs of a sequence of bytes. -/
def ofBytes : List UInt8 → List Glyph
  | [] => []
  | b :: bs =>
    match _h : char? (b :: bs) with
    | some (c, rest) => .char c :: ofBytes rest
    | none => .stray b :: ofBytes bs
termination_by bs => bs.length
decreasing_by
  · exact length_char? _h
  · simp

/-- The text of glyphs that are all characters. -/
def toChars? : List Glyph → Option (List Char)
  | [] => some []
  | .char c :: gs => (toChars? gs).map (c :: ·)
  | .stray _ :: _ => none

theorem toChars?_ofString (s : String) : toChars? (ofString s) = some s.toList := by
  have h : ∀ cs : List Char, toChars? (cs.map .char) = some cs := by
    intro cs
    induction cs with
    | nil => rfl
    | cons c cs ih => simp [toChars?, ih]
  exact h _

end Glyph

end SchemaClient.Text
