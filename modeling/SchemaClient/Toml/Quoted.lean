/-!
# Quoted texts of TOML

A text stands in double or single quotes, on one line or, in three quotes, on several. Only the
double quotes know escapes. This file reads the four notations and writes a text in the one that
needs no escapes, if there is one.
-/

namespace SchemaClient.Toml

/-- How a text is quoted. -/
inductive Notation where
  /-- In double quotes. -/
  | basic
  /-- In single quotes. -/
  | literal
  /-- In three double quotes. -/
  | basicLines
  /-- In three single quotes. -/
  | literalLines
deriving DecidableEq, Repr

namespace Quoted

/-- Whether a character stands for itself in all notations, quotes and backslashes aside: no
control character but the tab. -/
def isPlain (c : Char) : Bool :=
  c == '\t' || (0x20 ≤ c.toNat && c.toNat ≤ 0x7E) || 0x80 ≤ c.toNat

/-- The value of a hexadecimal digit. -/
def hexValue? (c : Char) : Option Nat :=
  if '0' ≤ c ∧ c ≤ '9' then some (c.toNat - '0'.toNat)
  else if 'a' ≤ c ∧ c ≤ 'f' then some (c.toNat - 'a'.toNat + 10)
  else if 'A' ≤ c ∧ c ≤ 'F' then some (c.toNat - 'A'.toNat + 10)
  else none

/-- The number of `n` hexadecimal digits behind the digits of `acc`, and the text after them. -/
def hexDigits? (acc : Nat) : Nat → List Char → Option (Nat × List Char)
  | 0, cs => some (acc, cs)
  | _ + 1, [] => none
  | n + 1, c :: cs => do hexDigits? (16 * acc + (← hexValue? c)) n cs

/-- The character of `n` hexadecimal digits, and the text after them. -/
def hexChar? (n : Nat) (cs : List Char) : Option (Char × List Char) := do
  let (k, rest) ← hexDigits? 0 n cs
  if k.isValidChar then return (Char.ofNat k, rest)
  none

/-- The character of an escape without its backslash, and the text after it. -/
def escape? : List Char → Option (Char × List Char)
  | 'b' :: cs => some ('\x08', cs)
  | 't' :: cs => some ('\t', cs)
  | 'n' :: cs => some ('\n', cs)
  | 'f' :: cs => some ('\x0c', cs)
  | 'r' :: cs => some ('\r', cs)
  | 'e' :: cs => some ('\x1b', cs)
  | '"' :: cs => some ('"', cs)
  | '\\' :: cs => some ('\\', cs)
  | 'x' :: cs => hexChar? 2 cs
  | 'u' :: cs => hexChar? 4 cs
  | 'U' :: cs => hexChar? 8 cs
  | _ => none

theorem length_hexDigits? {acc n k : Nat} {cs rest : List Char}
    (h : hexDigits? acc n cs = some (k, rest)) : rest.length ≤ cs.length := by
  induction n generalizing acc cs with
  | zero => simp_all [hexDigits?]
  | succ n ih =>
    cases cs with
    | nil => simp [hexDigits?] at h
    | cons c cs =>
      simp only [hexDigits?] at h
      obtain ⟨v, -, h⟩ := Option.bind_eq_some_iff.1 h
      have := ih h
      simp
      omega

theorem length_hexChar? {n : Nat} {cs rest : List Char} {c : Char}
    (h : hexChar? n cs = some (c, rest)) : rest.length ≤ cs.length := by
  obtain ⟨⟨k, r⟩, hk, h⟩ := Option.bind_eq_some_iff.1 h
  have hdigits := length_hexDigits? hk
  split at h
  simp_all

theorem length_escape? {cs rest : List Char} {c : Char} (h : escape? cs = some (c, rest)) :
    rest.length < cs.length := by
  unfold escape? at h
  split at h
  case h_9 | h_10 | h_11 =>
    have := length_hexChar? h
    simp
    omega
  all_goals simp_all

/-- A text in double quotes behind the opening one, and what follows the closing one. -/
def basic? : List Char → Option (List Char × List Char)
  | [] => none
  | c :: cs =>
    if c = '"' then some ([], cs)
    else if c = '\\' then
      match _h : escape? cs with
      | some (d, rest) => (basic? rest).map fun r => (d :: r.1, r.2)
      | none => none
    else if isPlain c then (basic? cs).map fun r => (c :: r.1, r.2)
    else none
termination_by cs => cs.length
decreasing_by
  · have := length_escape? _h
    simp
    omega
  · simp

/-- A text in single quotes behind the opening one, and what follows the closing one. -/
def literal? : List Char → Option (List Char × List Char)
  | [] => none
  | c :: cs =>
    if c = '\'' then some ([], cs)
    else if isPlain c then (literal? cs).map fun r => (c :: r.1, r.2)
    else none

/-- Whether a character may stand between the words of a text's lines. -/
def isLineSpace (c : Char) : Bool :=
  c == ' ' || c == '\t'

/-- The text behind a line break, if it begins with one. -/
def afterBreak? : List Char → Option (List Char)
  | '\n' :: cs => some cs
  | '\r' :: '\n' :: cs => some cs
  | _ => none

/-- The text without the white space and line breaks in front. -/
def skipLines : List Char → List Char
  | '\r' :: '\n' :: cs => skipLines cs
  | c :: cs => if isLineSpace c || c == '\n' then skipLines cs else c :: cs
  | [] => []

/-- The text in front of which a backslash that ends a line skips, if it ends one. -/
def afterLineEnd? (cs : List Char) : Option (List Char) :=
  (afterBreak? (cs.dropWhile isLineSpace)).map skipLines

theorem length_skipLines (cs : List Char) : (skipLines cs).length ≤ cs.length := by
  fun_induction skipLines cs <;> simp_all <;> omega

theorem length_afterBreak? {cs rest : List Char} (h : afterBreak? cs = some rest) :
    rest.length < cs.length := by
  unfold afterBreak? at h
  split at h
  · obtain rfl := Option.some.inj h
    simp
  · obtain rfl := Option.some.inj h
    simp only [List.length_cons]
    omega
  · simp at h

theorem length_dropWhile_le (p : Char → Bool) (cs : List Char) :
    (cs.dropWhile p).length ≤ cs.length :=
  (List.dropWhile_sublist p).length_le

theorem length_afterLineEnd? {cs rest : List Char} (h : afterLineEnd? cs = some rest) :
    rest.length < cs.length := by
  obtain ⟨r, hr, rfl⟩ := Option.map_eq_some_iff.1 h
  have := length_afterBreak? hr
  have := length_skipLines r
  have := length_dropWhile_le isLineSpace cs
  omega

/-- What follows three quotes that close a text, with the quotes that still belong to it: of up to
five quotes the last three close. -/
def closing (quote : Char) : List Char → List Char × List Char
  | c :: d :: cs =>
    if c = quote then if d = quote then ([c, d], cs) else ([c], d :: cs) else ([], c :: d :: cs)
  | [c] => if c = quote then ([c], []) else ([], [c])
  | [] => ([], [])

/-- What follows three quotes, if a text begins with them. -/
def afterQuotes? (quote : Char) : List Char → Option (List Char)
  | c :: d :: e :: cs => if c = quote ∧ d = quote ∧ e = quote then some cs else none
  | _ => none

/-- A text in three double quotes behind the opening ones, and what follows the closing ones. -/
def basicLines? : List Char → Option (List Char × List Char)
  | [] => none
  | c :: cs =>
    match afterQuotes? '"' (c :: cs) with
    | some rest => some (closing '"' rest)
    | none =>
      if c = '\\' then
        match _h : afterLineEnd? cs with
        | some rest => basicLines? rest
        | none =>
          match _g : escape? cs with
          | some (d, rest) => (basicLines? rest).map fun r => (d :: r.1, r.2)
          | none => none
      else if isPlain c || (afterBreak? (c :: cs)).isSome then
        (basicLines? cs).map fun r => (c :: r.1, r.2)
      else none
termination_by cs => cs.length
decreasing_by
  · have := length_afterLineEnd? _h
    simp
    omega
  · have := length_escape? _g
    simp
    omega
  · simp

/-- A text in three single quotes behind the opening ones, and what follows the closing ones. -/
def literalLines? : List Char → Option (List Char × List Char)
  | [] => none
  | c :: cs =>
    match afterQuotes? '\'' (c :: cs) with
    | some rest => some (closing '\'' rest)
    | none =>
      if isPlain c || (afterBreak? (c :: cs)).isSome then
        (literalLines? cs).map fun r => (c :: r.1, r.2)
      else none

/-- The text without the line break in front. -/
def dropBreak (cs : List Char) : List Char :=
  (afterBreak? cs).getD cs

/-- The notation whose opening quotes a text begins with, and what follows them. -/
def opening? (cs : List Char) : Option (Notation × List Char) :=
  match afterQuotes? '"' cs, afterQuotes? '\'' cs, cs with
  | some rest, _, _ => some (.basicLines, dropBreak rest)
  | _, some rest, _ => some (.literalLines, dropBreak rest)
  | _, _, '"' :: rest => some (.basic, rest)
  | _, _, '\'' :: rest => some (.literal, rest)
  | _, _, _ => none

/-- A text in a notation behind the opening quotes, and what follows the closing ones. -/
def body? : Notation → List Char → Option (List Char × List Char)
  | .basic => basic?
  | .literal => literal?
  | .basicLines => basicLines?
  | .literalLines => literalLines?

/-- The longest run of a character in a text. -/
def longestRun (c : Char) : Nat → List Char → Nat
  | n, [] => n
  | n, d :: cs => if d = c then longestRun c (n + 1) cs else max n (longestRun c 0 cs)

/-- Whether a character has to be escaped wherever it stands: control characters but the tab and
the line feed. -/
def needsEscape (c : Char) : Bool :=
  c != '\n' && !isPlain c

/-- The notation in which a text is written: double quotes if nothing has to be escaped, else
single quotes, else several lines. Where nothing helps the text is written with escapes. -/
def choose (cs : List Char) : Notation :=
  let codes := cs.any needsEscape
  let lines := cs.contains '\n'
  let backslash := cs.contains '\\'
  if !(codes || lines || backslash || cs.contains '"') then .basic
  else if !(codes || lines || cs.contains '\'') then .literal
  else if !(codes || backslash) && longestRun '"' 0 cs ≤ 2 then .basicLines
  else if !codes && longestRun '\'' 0 cs ≤ 2 then .literalLines
  else if lines then .basicLines
  else .basic

/-- The four hexadecimal digits, in capitals, of a number below 65536. -/
def hexText (n : Nat) : List Char :=
  [n / 4096, n / 256 % 16, n / 16 % 16, n % 16].map fun d => (Nat.digitChar d).toUpper

/-- The escape of a character. -/
def escape (c : Char) : List Char :=
  match c with
  | '\x08' => ['\\', 'b']
  | '\t' => ['\\', 't']
  | '\n' => ['\\', 'n']
  | '\x0c' => ['\\', 'f']
  | '\r' => ['\\', 'r']
  | '"' => ['\\', '"']
  | '\\' => ['\\', '\\']
  | c => '\\' :: 'u' :: hexText c.toNat

/-- The characters of a text inside double quotes. -/
def escapeAll : List Char → List Char
  | [] => []
  | c :: cs =>
    (if c = '"' ∨ c = '\\' ∨ c = '\t' ∨ !isPlain c then escape c else [c]) ++ escapeAll cs

/-- The characters of a text inside three double quotes, `quotes` of which stand in front of it:
the third quote of a run is escaped. -/
def escapeLines (quotes : Nat) : List Char → List Char
  | [] => []
  | c :: cs =>
    if c = '"' then
      if quotes = 2 then escape c ++ escapeLines 0 cs else c :: escapeLines (quotes + 1) cs
    else (if c = '\\' ∨ c = '\t' ∨ needsEscape c then escape c else [c]) ++ escapeLines 0 cs

/-- The text in a notation. Where a text has several lines it begins on a line of its own. -/
def write (cs : List Char) : List Char :=
  let start := if cs.contains '\n' then ['\n'] else []
  match choose cs with
  | .basic => '"' :: escapeAll cs ++ ['"']
  | .literal => '\'' :: cs ++ ['\'']
  | .basicLines => '"' :: '"' :: '"' :: start ++ escapeLines 0 cs ++ ['"', '"', '"']
  | .literalLines => '\'' :: '\'' :: '\'' :: start ++ cs ++ ['\'', '\'', '\'']

end Quoted

end SchemaClient.Toml
