import SchemaClient.Toml.Quoted

/-!
# Numbers, truth values and dates of TOML

What an atom stands for where a value is expected. Whole numbers are kept exactly; of a floating
point number only its range matters, and of a date or a time only its form.
-/

namespace SchemaClient.Toml

/-- A value without parts. -/
inductive Scalar where
  | string (cs : List Char)
  | integer (i : Int)
  /-- What has the form of a whole number and stands for none: the mark of a base without digits, or
  further characters behind an underscore. -/
  | malformed
  /-- A floating point number, and whether it is in range. -/
  | float (inRange : Bool)
  | bool (b : Bool)
  | moment
deriving DecidableEq, Repr

namespace Scalar

/-- The value of a decimal digit. -/
def digit? (c : Char) : Option Nat :=
  if '0' ≤ c ∧ c ≤ '9' then some (c.toNat - '0'.toNat) else none

/-- The digit of a base that a character is. -/
def digitOf? (base : Nat) (c : Char) : Option Nat :=
  (Quoted.hexValue? c).filter (· < base)

/-- The digits in front of which a digit stands: further ones, each of which may stand behind one
underscore. -/
def furtherDigits? (base : Nat) : List Char → Option (List Nat)
  | [] => some []
  | '_' :: c :: cs => do
    let d ← digitOf? base c
    return d :: (← furtherDigits? base cs)
  | c :: cs => do
    let d ← digitOf? base c
    return d :: (← furtherDigits? base cs)

/-- The digits of a number, of which there is at least one. -/
def digits? (base : Nat) : List Char → Option (List Nat)
  | [] => none
  | c :: cs => do
    let d ← digitOf? base c
    return d :: (← furtherDigits? base cs)

/-- The number that digits stand for. -/
def ofDigits (base : Nat) (ds : List Nat) : Nat :=
  ds.foldl (fun n d => base * n + d) 0

/-- Whether the digits are a whole number: no zero stands in front of others. -/
def isWhole : List Nat → Bool
  | 0 :: _ :: _ => false
  | _ => true

/-- Whether a text begins with a sign. -/
def isSigned (cs : List Char) : Bool :=
  cs.head? == some '-' || cs.head? == some '+'

/-- Whether a text begins with a minus sign, and the text without its sign. -/
def splitSign : List Char → Bool × List Char
  | '-' :: cs => (true, cs)
  | '+' :: cs => (false, cs)
  | cs => (false, cs)

/-- The number that digits behind the mark of a base stand for. -/
def based? (base : Nat) (cs : List Char) : Option Scalar :=
  if cs.isEmpty then some .malformed
  else (digits? base cs).map fun ds => .integer (ofDigits base ds)

/-- The digits of a whole number behind its sign, if it has one. Between a sign and the digits may
stand an underscore. -/
def wholeDigits? (signed : Bool) (cs : List Char) : Option (List Nat) :=
  match signed, cs with
  | true, '_' :: cs => digits? 10 cs
  | _, cs => (digits? 10 cs).filter isWhole

/-- Whether a character is a digit of some base. -/
def isAnyDigit (c : Char) : Bool :=
  (Quoted.hexValue? c).isSome

/-- Whether a text has the form of a whole number: behind the sign and the first digits, it is
looked at only next to its underscores. -/
def isWholeLike (cs : List Char) : Bool :=
  let rest := (splitSign cs).2.dropWhile Char.isDigit
  rest.head? == some '_' && (splitSign cs).2.head? != some '0' &&
    !rest.any (fun c => c == '.' || c == 'e' || c == 'E') &&
    match cs.splitOn '_' with
    | first :: parts => !first.isEmpty && parts.all (fun p => p.head?.any isAnyDigit) &&
      parts.dropLast.all (fun p => p.getLast?.any isAnyDigit)
    | [] => false

/-- The whole number of a text. -/
def integer? (cs : List Char) : Option Scalar :=
  match cs with
  | '0' :: 'x' :: cs => based? 16 cs
  | '0' :: 'o' :: cs => based? 8 cs
  | '0' :: 'b' :: cs => based? 2 cs
  | cs =>
    let (negative, ds) := splitSign cs
    match wholeDigits? (isSigned cs) ds with
    | some ds => some (.integer (if negative then -(ofDigits 10 ds : Int) else ofDigits 10 ds))
    | none => if isWholeLike cs then some .malformed else none

/-- The power of ten behind the mantissa of a floating point number; none is zero. -/
def exponent? : List Char → Option Int
  | [] => some 0
  | c :: cs =>
    if c = 'e' ∨ c = 'E' then
      let (negative, cs) := splitSign cs
      (digits? 10 cs).map fun ds => if negative then -(ofDigits 10 ds : Int) else ofDigits 10 ds
    else none

/-- Whether a character may stand in a run of digits. -/
def isDigitChar (c : Char) : Bool :=
  c.isDigit || c == '_'

/-- Whether the number `m * 10 ^ e` with a mantissa of the given number of digits rounds to a
number of 64 bits. -/
def inRange (m : Nat) (digits : Nat) (e : Int) : Bool :=
  m == 0 || decide (e + digits < 309) ||
    decide (e + digits = 309 ∧
      m * Nat.pow 10 e.toNat < (Nat.pow 2 1024 - Nat.pow 2 970) * Nat.pow 10 (-e).toNat)

/-- Whether the floating point number of a text is in range. -/
def float? (cs : List Char) : Option Bool :=
  let signed := isSigned cs
  let cs := (splitSign cs).2
  if cs = ['i', 'n', 'f'] ∨ cs = ['n', 'a', 'n'] then some true
  else do
    let whole ← wholeDigits? signed (cs.takeWhile isDigitChar)
    let (fraction, rest) ← match cs.dropWhile isDigitChar with
      | '.' :: cs =>
        (digits? 10 (cs.takeWhile isDigitChar)).map fun ds => (ds, cs.dropWhile isDigitChar)
      | cs => some ([], cs)
    if fraction.isEmpty && rest.isEmpty then none
    let e ← exponent? rest
    let ds := (whole ++ fraction).dropWhile (· == 0)
    return inRange (ofDigits 10 ds) ds.length (e - fraction.length)

/-- The number of two digits that a text begins with, and the text after them. -/
def twoDigits? : List Char → Option (Nat × List Char)
  | c :: d :: cs => do return (10 * (← digit? c) + (← digit? d), cs)
  | _ => none

/-- The text after a character, if it begins with it. -/
def after? (c : Char) : List Char → Option (List Char)
  | d :: cs => if c = d then some cs else none
  | [] => none

/-- How many days a month has. -/
def daysOf (year month : Nat) : Nat :=
  if month = 2 then
    if year % 4 = 0 ∧ (year % 100 ≠ 0 ∨ year % 400 = 0) then 29 else 28
  else if month = 4 ∨ month = 6 ∨ month = 9 ∨ month = 11 then 30
  else 31

/-- The text after a date, if it begins with one. -/
def afterDate? (cs : List Char) : Option (List Char) := do
  let (century, cs) ← twoDigits? cs
  let (year, cs) ← twoDigits? cs
  let (month, cs) ← twoDigits? (← after? '-' cs)
  let (day, cs) ← twoDigits? (← after? '-' cs)
  if 1 ≤ month ∧ month ≤ 12 ∧ 1 ≤ day ∧ day ≤ daysOf (100 * century + year) month then some cs
  else none

/-- The text after the seconds of a time, if it begins with them. -/
def afterSeconds? (cs : List Char) : Option (List Char) :=
  match after? ':' cs with
  | none => some cs
  | some cs => do
    let (second, cs) ← twoDigits? cs
    if 60 < second then none
    match after? '.' cs with
    | none => some cs
    | some cs =>
      if (cs.takeWhile Char.isDigit).isEmpty then none else some (cs.dropWhile Char.isDigit)

/-- The text after the hour and the minute of a time, if it begins with them. -/
def afterMinutes? (cs : List Char) : Option (List Char) := do
  let (hour, cs) ← twoDigits? cs
  let (minute, cs) ← twoDigits? (← after? ':' cs)
  if hour ≤ 23 ∧ minute ≤ 59 then some cs else none

/-- The text after a time, if it begins with one; the seconds may be left out. -/
def afterTime? (cs : List Char) : Option (List Char) := do
  afterSeconds? (← afterMinutes? cs)

/-- Whether a text is the offset of a time zone, or empty. -/
def isOffset : List Char → Bool
  | [] => true
  | ['Z'] => true
  | ['z'] => true
  | c :: cs => (c == '+' || c == '-') && afterMinutes? cs == some []

/-- Whether a text is a date, a time, or a date with a time behind it. -/
def isMoment (cs : List Char) : Bool :=
  match afterDate? cs with
  | some [] => true
  | some (c :: cs) =>
    (c == 'T' || c == 't' || c == ' ') && (afterTime? cs).any isOffset
  | none => afterTime? cs == some []

/-- The value of an atom. -/
def ofChars? (cs : List Char) : Option Scalar :=
  if cs = "true".toList then some (.bool true)
  else if cs = "false".toList then some (.bool false)
  else match integer? cs, float? cs with
    | some n, _ => some n
    | _, some r => some (.float r)
    | _, _ => if isMoment cs then some .moment else none

/-- Whether a value has the form of a number but is none, or none in the range of all numbers that
are read. -/
def isUnreadable : Scalar → Bool
  | integer i =>
    decide (i < -0x80000000000000000000000000000000) ||
      decide (0xFFFFFFFFFFFFFFFFFFFFFFFFFFFFFFFF < i)
  | malformed => true
  | float inRange => !inRange
  | _ => false

end Scalar

end SchemaClient.Toml
