import SchemaClient.Json.Value

/-!
# Numbers of a JSON text

The value of a number that is written in digits. A whole number that fits 64 bits is kept exactly.
Every other number becomes a floating point number: its leading digits are collected as long as
they fit 64 bits, and the rest of them counts as a power of ten.
-/

namespace SchemaClient.Json

/-- A number as it is written: digits in front of the point, behind it, and of the exponent with
its sign. -/
structure NumberText where
  negative : Bool
  whole : List Nat
  fraction : List Nat
  exponent : Option (Bool × List Nat)
deriving DecidableEq, Repr

namespace NumberText

/-- The greatest number of 64 bits. -/
def maxWord : Nat := 0xFFFFFFFFFFFFFFFF

/-- The greatest exponent that is read. -/
def maxExponent : Nat := 0x7FFFFFFF

/-- The number of the leading digits that fit a word, and how many further digits there are. -/
def wholeDigits (n : Nat) : List Nat → Nat × Nat
  | [] => (n, 0)
  | d :: ds => if 10 * n + d > maxWord then (n, ds.length + 1) else wholeDigits (10 * n + d) ds

/-- The number with the leading digits behind the point that fit a word, and how many they are. -/
def fractionDigits (n : Nat) : List Nat → Nat × Nat
  | [] => (n, 0)
  | d :: ds =>
    if 10 * n + d > maxWord then (n, 0)
    else let r := fractionDigits (10 * n + d) ds; (r.1, r.2 + 1)

/-- The number that digits stand for. -/
def ofDigits (ds : List Nat) : Nat :=
  ds.foldl (fun n d => 10 * n + d) 0

/-- The number `x * 10 ^ e`, rounded at every step; nothing if it is out of range. -/
def scale? (x : Binary64) (e : Int) : Option Binary64 :=
  if 0 ≤ e then
    if e ≤ 308 then x.timesPowerOfTen? e.toNat
    else if x.mantissa = 0 then some x else none
  else if -308 ≤ e then x.overPowerOfTen? (-e).toNat
  else if x.mantissa = 0 then some x
  else (x.overPowerOfTen? 308).bind fun y => scale? y (e + 308)
termination_by e.natAbs

/-- The floating point number `n * 10 ^ e`; nothing if it is out of range. -/
def float? (n : Nat) (e : Int) : Option Binary64 :=
  (Binary64.ofRatio? n 1).bind fun x => scale? x e

/-- The floating point number of a text; nothing if it is out of range. -/
def toFloat? (t : NumberText) : Option Binary64 :=
  let whole := wholeDigits 0 t.whole
  let all := fractionDigits whole.1 t.fraction
  let e : Int := whole.2 - all.2
  match t.exponent with
  | none => float? all.1 e
  | some (negative, ds) =>
    let k := ofDigits ds
    if k > maxExponent then (if all.1 = 0 ∨ negative then some .zero else none)
    else float? all.1 (if negative then e - k else e + k)

/-- The whole number of a text, if it is written without point and exponent and fits 64 bits. A
zero with a sign is no whole number. -/
def toInteger? (t : NumberText) : Option Int :=
  match wholeDigits 0 t.whole, t.fraction, t.exponent with
  | (n, 0), [], none =>
    if t.negative then (if 0 < n ∧ n ≤ 0x8000000000000000 then some (-n) else none) else some n
  | _, _, _ => none

/-- The number that a text stands for; nothing if it is out of range. -/
def value? (t : NumberText) : Option Number :=
  match t.toInteger? with
  | some i => some (.integer i)
  | none => t.toFloat?.map (.float t.negative)

end NumberText

end SchemaClient.Json
