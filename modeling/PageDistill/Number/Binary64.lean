/-!
# Double-Precision Numbers

The binary64 numbers as exact values, and rounding of a quotient to the nearest
of them.

A finite number is a sign and a value `mantissa · 2 ^ exponent`. The mantissa
lies below `2 ^ 53`, and it reaches `2 ^ 52` unless the exponent is the least
one, −1074. Working on these integers keeps every question about such a number
(which decimal is nearest, which is shortest) a question of exact arithmetic.

## Main definitions

* `Binary64`: The numbers, with the infinities and the value that is no number.
* `halfEven`: A quotient rounded to a natural number, ties to the even one.
* `Binary64.ofQuotient`: The nearest number to a quotient of naturals.
* `Binary64.ofDecimal`: The nearest number to a decimal.
* `Binary64.toInt?`, `Binary64.floor?`, `Binary64.truncated?`: The integer that a
  number is, the one below it and the one towards zero.
-/

namespace PageDistill

/-- A number of the binary64 format; a finite one has the value
    `± mantissa · 2 ^ exponent`. -/
inductive Binary64 where
  | finite (negative : Bool) (mantissa : Nat) (exponent : Int)
  | infinite (negative : Bool)
  | notANumber
  deriving DecidableEq, Repr

/-- The natural number nearest to `num / den`, and of two equally near ones the
    even one. -/
def halfEven (num den : Nat) : Nat :=
  let q := num / den
  let twice := 2 * (num % den)
  if twice < den then q
  else if den < twice then q + 1
  else if q % 2 = 0 then q else q + 1

namespace Binary64

/-- The least exponent; below it numbers lose digits instead. -/
def leastExponent : Int := -1074

/-- The greatest exponent of a finite number. -/
def greatestExponent : Int := 971

/-- Zero of the given sign. -/
def zeroOf (negative : Bool) : Binary64 := .finite negative 0 leastExponent

/-- The numerator and the denominator of `(num / den) / 2 ^ e`. -/
def scaleByPower (num den : Nat) (e : Int) : Nat × Nat :=
  if 0 ≤ e then (num, den * Nat.pow 2 e.toNat) else (num * Nat.pow 2 (-e).toNat, den)

/-- The exponent at which a positive quotient has 53 binary digits before the
    point, or the least exponent if that is greater. -/
def exponentFor (num den : Nat) : Int :=
  let e := (Nat.log2 num : Int) - (Nat.log2 den : Int) - 53
  let scaled := scaleByPower num den e
  -- The quotient at `e` has 53 or 54 digits.
  let e := if Nat.pow 2 53 ≤ scaled.1 / scaled.2 then e + 1 else e
  max e leastExponent

/-- The number nearest to a quotient, ties to the even mantissa; quotients past
    the greatest finite number become infinite. The denominator is positive. -/
def ofQuotient (negative : Bool) (num den : Nat) : Binary64 :=
  if num = 0 then zeroOf negative
  else
    let e := exponentFor num den
    let scaled := scaleByPower num den e
    let m := halfEven scaled.1 scaled.2
    -- Rounding up to the next power of two keeps the value and moves the point.
    let carried : Nat × Int := if m = Nat.pow 2 53 then (Nat.pow 2 52, e + 1) else (m, e)
    if greatestExponent < carried.2 then .infinite negative
    else .finite negative carried.1 carried.2

/-- The number nearest to `digits · 10 ^ exponent`. Decimals of more than 400
    places before the point are infinite, and those that begin more than 400
    places after it are zero, whatever their digits. -/
def ofDecimal (negative : Bool) (digits : Nat) (exponent : Int) : Binary64 :=
  if digits = 0 then zeroOf negative
  else
    let places := ((Nat.toDigits 10 digits).length : Int) + exponent
    if 400 < places then .infinite negative
    else if places < -400 then zeroOf negative
    else if 0 ≤ exponent then ofQuotient negative (digits * Nat.pow 10 exponent.toNat) 1
    else ofQuotient negative digits (Nat.pow 10 (-exponent).toNat)

/-- Zeros of either sign are the numbers without a value to speak of. -/
def isZero : Binary64 → Bool
  | .finite _ m _ => m = 0
  | _ => false

/-- The integer that the number is, if it is one. -/
def toInt? : Binary64 → Option Int
  | .finite negative m e =>
    let magnitude? : Option Nat :=
      if 0 ≤ e then some (m * Nat.pow 2 e.toNat)
      else if m % Nat.pow 2 (-e).toNat = 0 then some (m / Nat.pow 2 (-e).toNat) else none
    magnitude?.map fun n => if negative then -(n : Int) else n
  | _ => none

/-- A finite number as a quotient of an integer and a positive one. -/
def quotient? : Binary64 → Option (Int × Nat)
  | .finite negative m e =>
    let signed : Int := if negative then -(m : Int) else m
    if 0 ≤ e then some (signed * (Nat.pow 2 e.toNat : Nat), 1)
    else some (signed, Nat.pow 2 (-e).toNat)
  | _ => none

/-- The greatest integer that is not above a finite number. -/
def floor? (x : Binary64) : Option Int := x.quotient?.map fun (num, den) => Int.fdiv num den

/-- The integer part of a finite number. -/
def truncated? (x : Binary64) : Option Int := x.quotient?.map fun (num, den) => Int.tdiv num den

end Binary64

end PageDistill
