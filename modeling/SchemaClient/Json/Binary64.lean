/-!
# Binary floating point numbers

A finite number of the format binary64, without its sign, is a mantissa times a power of two. This
file rounds quotients of natural numbers to that format, a tie going to the even mantissa, and
finds the shortest decimal digits that round back to a number.
-/

namespace SchemaClient.Json

/-- The number `mantissa * 2 ^ exponent`. -/
structure Binary64 where
  mantissa : Nat
  exponent : Int
deriving DecidableEq, Repr, Inhabited

namespace Binary64

/-- The least exponent. -/
def minExponent : Int := -1074

/-- The greatest exponent. -/
def maxExponent : Int := 971

/-- The number zero. -/
def zero : Binary64 := ⟨0, minExponent⟩

/-- The power of two `2 ^ e` as numerator and denominator. -/
def powerOfTwo (e : Int) : Nat × Nat :=
  (Nat.pow 2 e.toNat, Nat.pow 2 (-e).toNat)

/-- The number as numerator and denominator. -/
def toRatio (x : Binary64) : Nat × Nat :=
  (x.mantissa * (powerOfTwo x.exponent).1, (powerOfTwo x.exponent).2)

/-- The quotient rounded to the nearest natural number, a tie to the even one. -/
def roundDiv (num den : Nat) : Nat :=
  let q := num / den
  let r := num % den
  if 2 * r < den then q
  else if 2 * r > den then q + 1
  else if q % 2 = 0 then q else q + 1

/-- The exponent at which a quotient has a mantissa of 53 bits, or the least one. -/
def exponentOf (num den : Nat) : Int :=
  let e : Int := (Nat.log2 num : Int) - (Nat.log2 den : Int) - 53
  let p := powerOfTwo e
  let e := if num * p.2 / (den * p.1) ≥ Nat.pow 2 53 then e + 1 else e
  max minExponent e

/-- The number nearest to a quotient; nothing if it is out of range. -/
def ofRatio? (num den : Nat) : Option Binary64 :=
  if num = 0 then some zero
  else
    let e := exponentOf num den
    let p := powerOfTwo e
    let m := roundDiv (num * p.2) (den * p.1)
    let x : Binary64 := if m = Nat.pow 2 53 then ⟨Nat.pow 2 52, e + 1⟩ else ⟨m, e⟩
    if x.exponent > maxExponent then none else some x

/-- The product with a power of ten, and its quotient by one: both factors are rounded numbers,
and the result is rounded once more. -/
def timesPowerOfTen? (x : Binary64) (k : Nat) : Option Binary64 := do
  let p ← ofRatio? (Nat.pow 10 k) 1
  ofRatio? (x.toRatio.1 * p.toRatio.1) (x.toRatio.2 * p.toRatio.2)

@[inherit_doc timesPowerOfTen?]
def overPowerOfTen? (x : Binary64) (k : Nat) : Option Binary64 := do
  let p ← ofRatio? (Nat.pow 10 k) 1
  ofRatio? (x.toRatio.1 * p.toRatio.2) (x.toRatio.2 * p.toRatio.1)

/-- The decimal exponent of a number that is not zero: that of its first digit. -/
def decimalExponent (x : Binary64) : Int :=
  let r := x.toRatio
  ((Nat.toDigits 10 (r.1 * Nat.pow 10 400 / r.2)).length : Int) - 401

/-- Whether the decimal `d * 10 ^ p` rounds to the number. -/
def isNearest (x : Binary64) (d : Nat) (p : Int) : Bool :=
  ofRatio? (d * Nat.pow 10 p.toNat) (Nat.pow 10 (-p).toNat) == some x

/-- The distance from the number to the decimal `d * 10 ^ p`, in a unit that depends only on the
number and `p`. -/
def distance (x : Binary64) (d : Nat) (p : Int) : Nat :=
  let r := x.toRatio
  let a := r.1 * Nat.pow 10 (-p).toNat
  let b := d * Nat.pow 10 p.toNat * r.2
  max a b - min a b

/-- The nearest decimal with its last digit at `10 ^ p` that rounds to the number, if there is
one. -/
def onGrid? (x : Binary64) (p : Int) : Option Nat :=
  let r := x.toRatio
  let low := r.1 * Nat.pow 10 (-p).toNat / (r.2 * Nat.pow 10 p.toNat)
  match isNearest x low p, isNearest x (low + 1) p with
  | true, true =>
    let a := distance x low p
    let b := distance x (low + 1) p
    if a < b ∨ (a = b ∧ low % 2 = 0) then some low else some (low + 1)
  | true, false => some low
  | false, true => some (low + 1)
  | false, false => none

/-- The decimal `d * 10 ^ p` without the zeros at the end of `d`. -/
def dropZeros : Nat → Nat → Int → Nat × Int
  | 0, d, p => (d, p)
  | fuel + 1, d, p => if d % 10 = 0 then dropZeros fuel (d / 10) (p + 1) else (d, p)

/-- The decimal with the fewest digits that rounds to a number other than zero, and of those the
nearest: its digits as a number and the exponent of the last one. -/
def shortest (x : Binary64) : Nat × Int :=
  let top := x.decimalExponent
  let found := (List.range 17).findSome? fun n : Nat =>
    let p := top - n
    (onGrid? x p).map fun d => (d, p)
  match found with
  | some (d, p) => dropZeros 20 d p
  | none => (0, 0)

end Binary64

end SchemaClient.Json
