import Mathlib.Data.List.Basic
import SchemaClient.Proofs.JsonParts
import SchemaClient.Proofs.Numeral

/-!
# Printed JSON as tokens

The texts of a JSON value whose numbers are whole numbers of 64 bits, on one line or on several,
are spelled from the same tokens, and are cut into these tokens again, whatever characters the
strings of the value hold.
-/

namespace SchemaClient.Json
open SchemaClient.Text

namespace Token

lemma glyphs_append (cs ds : List Char) : glyphs (cs ++ ds) = glyphs cs ++ glyphs ds :=
  List.map_append

lemma ofGlyphs_of_scan {c : Char} {gs rest : List Glyph} {t : Token} (hblank : isBlank c = false)
    (hscan : scan c gs = .ok (t, rest)) : ofGlyphs (.char c :: gs) = t :: ofGlyphs rest := by
  rw [ofGlyphs, if_neg (by simp [hblank])]
  split
  · next t' rest' h =>
    obtain ⟨rfl, rfl⟩ := Prod.mk.inj (Except.ok.inj (hscan ▸ h))
    rfl
  · next h => simp [hscan] at h

lemma ofGlyphs_punctuation {c : Char} {t : Token} (hblank : isBlank c = false)
    (h : punctuation? c = some t) (gs : List Glyph) :
    ofGlyphs (.char c :: gs) = t :: ofGlyphs gs := by
  apply ofGlyphs_of_scan hblank
  rw [scan, h]

lemma scanWord_append (cs : List Char) (rest : List Glyph) :
    scanWord cs (glyphs cs ++ rest) = .ok rest := by
  induction cs with
  | nil => rfl
  | cons c cs ih => simpa [scanWord] using ih

lemma ofGlyphs_null (rest : List Glyph) :
    ofGlyphs (glyphs "null".toList ++ rest) = .null :: ofGlyphs rest := by
  apply ofGlyphs_of_scan (by decide)
  exact congrArg (ofWord .null) (scanWord_append "ull".toList rest)

lemma ofGlyphs_bool (b : Bool) (rest : List Glyph) :
    ofGlyphs (glyphs (printBool b).toList ++ rest) = .bool b :: ofGlyphs rest := by
  cases b with
  | false =>
    apply ofGlyphs_of_scan (by decide)
    exact congrArg (ofWord (.bool false)) (scanWord_append "alse".toList rest)
  | true =>
    apply ofGlyphs_of_scan (by decide)
    exact congrArg (ofWord (.bool true)) (scanWord_append "rue".toList rest)

lemma scanString_plain {c : Char} (hquote : c ≠ '"') (hslash : c ≠ '\\')
    (hcontrol : ¬c.toNat < 0x20) (acc : List Char) (gs : List Glyph) :
    scanString acc .none (.char c :: gs) = scanString (c :: acc) .none gs := by
  rw [scanString, if_neg hquote, if_neg hslash, if_neg hcontrol]

lemma scanString_escape {d : Char} {gs rest : List Glyph} (h : scanEscape gs = .ok (some d, rest))
    (acc : List Char) :
    scanString acc .none (.char '\\' :: gs) = scanString (d :: acc) .none rest := by
  rw [scanString, if_neg (by decide), if_pos rfl]
  split
  · next h' => simp [h] at h'
  · next d' rest' h' =>
    obtain ⟨hd, rfl⟩ := Prod.mk.inj (Except.ok.inj (h ▸ h'))
    obtain rfl := Option.some.inj hd
    rfl
  · next h' => simp [h] at h'

lemma hexDigit?_hexDigit : ∀ n < 16, hexDigit? (.char (hexDigit n)) = some n := by
  decide

lemma scanEscape_unicode {c : Char} (h : c.toNat < 0x20) (rest : List Glyph) :
    scanEscape (glyphs ['u', '0', '0', hexDigit (c.toNat / 16), hexDigit (c.toNat % 16)] ++ rest) =
      .ok (some c, rest) := by
  have hzero : hexDigit? (.char '0') = some 0 := rfl
  have hhigh := hexDigit?_hexDigit (c.toNat / 16) (by omega)
  have hlow := hexDigit?_hexDigit (c.toNat % 16) (by omega)
  have hsum : ((0 * 16 + 0) * 16 + c.toNat / 16) * 16 + c.toNat % 16 = c.toNat := by omega
  have hhex : scanHex
      (glyphs ['0', '0', hexDigit (c.toNat / 16), hexDigit (c.toNat % 16)] ++ rest) =
        .ok (c.toNat, rest) := by
    simp only [List.map_cons, List.map_nil, List.cons_append, List.nil_append, scanHex, hzero,
      hhigh, hlow, hsum]
  have hfirst : isHighSurrogate c.toNat = false := by
    simp only [isHighSurrogate, Bool.and_eq_false_iff, decide_eq_false_iff_not]
    omega
  have hsecond : isLowSurrogate c.toNat = false := by
    simp only [isLowSurrogate, Bool.and_eq_false_iff, decide_eq_false_iff_not]
    omega
  calc scanEscape (.char 'u' ::
        (glyphs ['0', '0', hexDigit (c.toNat / 16), hexDigit (c.toNat % 16)] ++ rest))
      = .ok (some (Char.ofNat c.toNat), rest) := by
        rw [scanEscape, if_pos rfl, hhex]
        simp only [hfirst, hsecond, Bool.false_eq_true, if_false]
    _ = .ok (some c, rest) := by rw [Char.ofNat_toNat]

lemma scanString_escapeChar (c : Char) (acc : List Char) (rest : List Glyph) :
    scanString acc .none (glyphs (escapeChar c) ++ rest) = scanString (c :: acc) .none rest := by
  unfold escapeChar
  split_ifs with hquote hslash hb ht hn hf hr hcontrol
  -- The first seven characters have an escape of two characters each.
  iterate 7
    case pos =>
      subst c
      exact scanString_escape rfl acc
  case pos => exact scanString_escape (scanEscape_unicode hcontrol rest) acc
  case neg => exact scanString_plain hquote hslash hcontrol acc rest

lemma scanString_flatMap_escapeChar (cs acc : List Char) (rest : List Glyph) :
    scanString acc .none (glyphs (cs.flatMap escapeChar) ++ .char '"' :: rest) =
      .ok (some (String.ofList (acc.reverse ++ cs)), rest) := by
  induction cs generalizing acc with
  | nil => simp [scanString]
  | cons c cs ih =>
    rw [List.flatMap_cons, glyphs_append, List.append_assoc, scanString_escapeChar, ih]
    simp

/-- A printed string is the token of its text. -/
lemma ofGlyphs_quote (s : String) (rest : List Glyph) :
    ofGlyphs (glyphs (quote s).toList ++ rest) = .string (some s) :: ofGlyphs rest := by
  have htext : glyphs (quote s).toList ++ rest =
      .char '"' :: (glyphs (s.toList.flatMap escapeChar) ++ .char '"' :: rest) := by
    simp [quote]
  rw [htext]
  apply ofGlyphs_of_scan (by decide)
  have hscan := scanString_flatMap_escapeChar s.toList [] rest
  rw [List.reverse_nil, List.nil_append, String.ofList_toList] at hscan
  calc scan '"' (glyphs (s.toList.flatMap escapeChar) ++ .char '"' :: rest)
      = ofString (.ok (some s, rest)) := by
        rw [← hscan]
        rfl
    _ = .ok (.string (some s), rest) := rfl

/-- The characters that a token is written as, unless it is a number. -/
inductive Written : Token → List Char → Prop
  | punctuation {c : Char} {t : Token} (h : punctuation? c = some t) : Written t [c]
  | null : Written .null "null".toList
  | bool (b : Bool) : Written (.bool b) (printBool b).toList
  | string (s : String) : Written (.string (some s)) (quote s).toList

lemma isBlank_of_punctuation? {c : Char} {t : Token} (h : punctuation? c = some t) :
    isBlank c = false := by
  unfold punctuation? at h
  split at h <;> first | rfl | cases h

lemma Written.ofGlyphs_append {t : Token} {cs : List Char} (h : Written t cs) (rest : List Glyph) :
    ofGlyphs (glyphs cs ++ rest) = t :: ofGlyphs rest := by
  cases h with
  | punctuation h => exact ofGlyphs_punctuation (isBlank_of_punctuation? h) h rest
  | null => exact ofGlyphs_null rest
  | bool b => exact ofGlyphs_bool b rest
  | string s => exact ofGlyphs_quote s rest

lemma ofGlyphs_number {n : Number} (hn : n.IsInteger64) {rest : List Char} (h : EndsNumber rest) :
    ofGlyphs (glyphs (n.print.toList ++ rest)) = .number (some n) :: ofGlyphs (glyphs rest) := by
  obtain ⟨c, cs, htext, hblank, hscan⟩ := scan_print hn h
  rw [htext]
  exact ofGlyphs_of_scan hblank hscan

/-- Two texts that are spelled from the same tokens, the second one without blanks between them. -/
inductive Spells : List Char → List Char → List Token → Prop
  | nil : Spells [] [] []
  | blank {c : Char} {wide tight : List Char} {ts : List Token} (h : isBlank c = true)
      (rest : Spells wide tight ts) : Spells (c :: wide) tight ts
  | written {t : Token} {cs wide tight : List Char} {ts : List Token} (h : Written t cs)
      (rest : Spells wide tight ts) : Spells (cs ++ wide) (cs ++ tight) (t :: ts)
  | number {n : Number} {wide tight : List Char} {ts : List Token} (h : n.IsInteger64)
      (hwide : EndsNumber wide) (htight : EndsNumber tight) (rest : Spells wide tight ts) :
      Spells (n.print.toList ++ wide) (n.print.toList ++ tight) (.number (some n) :: ts)

namespace Spells

variable {wide tight : List Char} {ts : List Token}

lemma punctuation {c : Char} {t : Token} (h : punctuation? c = some t)
    (rest : Spells wide tight ts) : Spells (c :: wide) (c :: tight) (t :: ts) :=
  .written (.punctuation h) rest

lemma newline (level : Nat) (rest : Spells wide tight ts) :
    Spells ((Json.newline level).toList ++ wide) tight ts := by
  have hspaces (n : Nat) : Spells (List.replicate n ' ' ++ wide) tight ts := by
    induction n with
    | zero => exact rest
    | succ n ih => exact .blank rfl ih
  have htext : (Json.newline level).toList ++ wide =
      '\n' :: (List.replicate (2 * level) ' ' ++ wide) := by simp [Json.newline, indent]
  rw [htext]
  exact .blank rfl (hspaces _)

/-- Both texts are cut into the tokens. -/
theorem ofGlyphs_eq (h : Spells wide tight ts) :
    ofGlyphs (glyphs wide) = ts ∧ ofGlyphs (glyphs tight) = ts := by
  have hnil : ofGlyphs (glyphs []) = [] := by rw [glyphs, List.map_nil, ofGlyphs]
  induction h with
  | nil => exact ⟨hnil, hnil⟩
  | blank hblank _ ih =>
    rw [glyphs, List.map_cons, ofGlyphs, if_pos hblank]
    exact ih
  | written h _ ih =>
    rw [glyphs_append, glyphs_append, h.ofGlyphs_append, h.ofGlyphs_append, ih.1, ih.2]
    exact ⟨rfl, rfl⟩
  | number h hwide htight _ ih =>
    rw [ofGlyphs_number h hwide, ofGlyphs_number h htight, ih.1, ih.2]
    exact ⟨rfl, rfl⟩

end Spells

/-- Two texts of the same tokens that end a number in front of them. -/
structure Follows (wide tight : List Char) (ts : List Token) : Prop where
  spells : Spells wide tight ts
  wideEnds : EndsNumber wide
  tightEnds : EndsNumber tight

namespace Follows

variable {wide tight : List Char} {ts : List Token}

lemma nil : Follows [] [] [] :=
  ⟨.nil, rfl, rfl⟩

lemma punctuation {c : Char} {t : Token} (h : punctuation? c = some t)
    (rest : Spells wide tight ts) : Follows (c :: wide) (c :: tight) (t :: ts) := by
  have hends (cs : List Char) : EndsNumber (c :: cs) := by
    unfold punctuation? at h
    split at h <;> first | rfl | cases h
  exact ⟨rest.punctuation h, hends wide, hends tight⟩

lemma newline (level : Nat) (rest : Follows wide tight ts) :
    Follows ((Json.newline level).toList ++ wide) tight ts := by
  refine ⟨rest.spells.newline level, ?_, rest.tightEnds⟩
  simp [EndsNumber, Json.newline, continuesNumber]

end Follows

end Token

/-! ### The tokens of a value -/

mutual

/-- The tokens of a value. -/
def tokens : Json → List Token
  | .null => [.null]
  | .bool b => [.bool b]
  | .number n => [.number (some n)]
  | .string s => [.string (some s)]
  | .array [] => [.opening .square, .closing .square]
  | .array (v :: vs) => .opening .square :: (tokens v ++ itemTokens vs ++ [.closing .square])
  | .object [] => [.opening .curly, .closing .curly]
  | .object ((k, v) :: es) =>
    .opening .curly :: .string (some k) :: .colon ::
      (tokens v ++ entryTokens es ++ [.closing .curly])

/-- The tokens of the items after the first. -/
def itemTokens : List Json → List Token
  | [] => []
  | v :: vs => .comma :: (tokens v ++ itemTokens vs)

/-- The tokens of the entries after the first. -/
def entryTokens : List (String × Json) → List Token
  | [] => []
  | (k, v) :: es => .comma :: .string (some k) :: .colon :: (tokens v ++ entryTokens es)

end

/-- The numbers of the value are whole numbers of 64 bits. -/
abbrev IsIntegral (v : Json) : Prop :=
  v.Every (fun _ => True) (fun _ => True) Number.IsInteger64

section Spelled
open Token

/-- In front of texts of the same tokens, the texts of the value too are spelled from the same
tokens. -/
def IsSpelled (v : Json) : Prop :=
  ∀ (level : Nat) {wide tight : List Char} {ts : List Token}, Follows wide tight ts →
    Spells ((v.indented level).toList ++ wide) (v.compact.toList ++ tight) (tokens v ++ ts)

variable {wide tight : List Char} {ts : List Token}

lemma follows_items {vs : List Json} (hvs : ∀ v ∈ vs, v.IsSpelled) (level : Nat)
    (rest : Follows wide tight ts) :
    Follows ((indentedItems level vs).toList ++ wide) ((compactItems vs).toList ++ tight)
      (itemTokens vs ++ ts) := by
  induction vs with
  | nil => exact rest
  | cons v vs ih =>
    obtain ⟨hv, hvs⟩ := List.forall_mem_cons.mp hvs
    have hvalue := (hv level (ih hvs)).newline level
    have hcomma := Follows.punctuation (c := ',') rfl hvalue
    simpa [indentedItems, compactItems, itemTokens] using hcomma

lemma IsSpelled.entry {v : Json} (hv : v.IsSpelled) (k : String) (level : Nat)
    (rest : Follows wide tight ts) :
    Spells ((quote k).toList ++ ':' :: ' ' :: ((v.indented level).toList ++ wide))
      ((quote k).toList ++ ':' :: (v.compact.toList ++ tight))
      (.string (some k) :: .colon :: (tokens v ++ ts)) :=
  .written (.string k) (.punctuation rfl (.blank rfl (hv level rest)))

lemma follows_entries {es : List (String × Json)} (hes : ∀ e ∈ es, e.2.IsSpelled) (level : Nat)
    (rest : Follows wide tight ts) :
    Follows ((indentedEntries level es).toList ++ wide) ((compactEntries es).toList ++ tight)
      (entryTokens es ++ ts) := by
  induction es with
  | nil => exact rest
  | cons e es ih =>
    obtain ⟨k, v⟩ := e
    obtain ⟨hv, hes⟩ := List.forall_mem_cons.mp hes
    have hentry := (hv.entry k level (ih hes)).newline level
    have hcomma := Follows.punctuation (c := ',') rfl hentry
    simpa [indentedEntries, compactEntries, entryTokens] using hcomma

lemma isSpelled_array {vs : List Json} (hvs : ∀ v ∈ vs, v.IsSpelled) :
    (Json.array vs).IsSpelled := by
  intro level wide tight ts rest
  -- The texts are put together from their ends, as what follows a number must end it.
  have hend := Follows.punctuation (c := ']') rfl rest.spells
  cases vs with
  | nil =>
    have hempty := hend.spells.punctuation (c := '[') rfl
    simpa [indented, compact, tokens] using hempty
  | cons v vs =>
    obtain ⟨hv, hvs⟩ := List.forall_mem_cons.mp hvs
    have hitems := follows_items hvs (level + 1) (hend.newline level)
    have hvalue := (hv (level + 1) hitems).newline (level + 1)
    have hbegin := hvalue.punctuation (c := '[') rfl
    simpa [indented, compact, tokens] using hbegin

lemma isSpelled_object {es : List (String × Json)} (hes : ∀ e ∈ es, e.2.IsSpelled) :
    (Json.object es).IsSpelled := by
  intro level wide tight ts rest
  have hend := Follows.punctuation (c := '\x7d') rfl rest.spells
  cases es with
  | nil =>
    have hempty := hend.spells.punctuation (c := '\x7b') rfl
    simpa [indented, compact, tokens] using hempty
  | cons e es =>
    obtain ⟨k, v⟩ := e
    obtain ⟨hv, hes⟩ := List.forall_mem_cons.mp hes
    have hentries := follows_entries hes (level + 1) (hend.newline level)
    have hentry := (hv.entry k (level + 1) hentries).newline (level + 1)
    have hbegin := hentry.punctuation (c := '\x7b') rfl
    simpa [indented, compact, tokens] using hbegin

/-- The texts of a value are spelled from its tokens. -/
theorem isSpelled {v : Json} (h : v.IsIntegral) : v.IsSpelled := by
  induction h with
  | null => exact fun _ _ _ _ rest => .written .null rest.spells
  | bool b => exact fun _ _ _ _ rest => .written (.bool b) rest.spells
  | number hn => exact fun _ _ _ _ rest => .number hn rest.wideEnds rest.tightEnds rest.spells
  | string => exact fun _ _ _ _ rest => .written (.string _) rest.spells
  | array _ ih => exact isSpelled_array ih
  | object _ _ ih => exact isSpelled_object ih

/-- The text on several lines and the one on one line are spelled from the tokens of the value. -/
theorem spells_texts {v : Json} (h : v.IsIntegral) :
    Spells (v.indented 0).toList v.compact.toList (tokens v) := by
  have hspells := isSpelled h 0 Follows.nil
  rwa [List.append_nil, List.append_nil, List.append_nil] at hspells

end Spelled

end SchemaClient.Json
