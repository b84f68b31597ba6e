import PageDistill.Number.Binary64

/-!
# Shortest Decimal Text of a Number

The fewest decimal digits that still round to a given binary64 number, and the
notations that write them.

The decimals that round to a number form an interval around it, whose ends
count when the mantissa is even. For 1, 2, … digits, the decimals of that many
digits form a grid, and if a grid point lies in the interval, then so does one
of the number's two neighbours on the grid. The first grid with such a
neighbour gives the digits; of two neighbours inside, the nearer is taken.

Where the decimal point goes is a decision of the format that writes the
number, and so are the texts of the values that have no digits. A
`FloatNotation` holds those decisions.

## Main definitions

* `Shortest.digits`: The digits and the decimal exponent.
* `FloatNotation`: The decisions of a written format.
* `FloatNotation.write`: The text of a number in a notation.
-/

namespace PageDistill

namespace Shortest

/-- A decimal: `digits · 10 ^ exponent`. -/
structure Decimal where
  digits : Nat
  exponent : Int
  deriving DecidableEq, Repr

/-- A positive number with the ends of its rounding interval, as numerators over
    one denominator. -/
structure Interval where
  low : Nat
  value : Nat
  high : Nat
  den : Nat
  closed : Bool
  deriving Repr

/-- The rounding interval of `m · 2 ^ e`. Below a power of two the numbers lie
    twice as dense, so the interval is shorter on that side. -/
def intervalOf (m : Nat) (e : Int) : Interval :=
  let below := if m = Nat.pow 2 52 ∧ e ≠ Binary64.leastExponent then 1 else 2
  let closed := m % 2 = 0
  -- Quarters of a unit in the last place make all three numerators whole.
  let quarter := e - 2
  if 0 ≤ quarter then
    let p := Nat.pow 2 quarter.toNat
    ⟨(4 * m - below) * p, 4 * m * p, (4 * m + 2) * p, 1, closed⟩
  else
    ⟨4 * m - below, 4 * m, 4 * m + 2, Nat.pow 2 (-quarter).toNat, closed⟩

/-- The grid of multiples of `10 ^ t` as numerator and denominator of its
    step. -/
def gridStep (t : Int) : Nat × Nat :=
  if 0 ≤ t then (Nat.pow 10 t.toNat, 1) else (1, Nat.pow 10 (-t).toNat)

/-- Whether `k` steps of a grid lie in the interval. -/
def Interval.contains (i : Interval) (step : Nat × Nat) (k : Nat) : Bool :=
  let point := k * step.1 * i.den
  let low := i.low * step.2
  let high := i.high * step.2
  if i.closed then low ≤ point && point ≤ high else low < point && point < high

/-- The one of the value's neighbours on the grid that lies in the interval, and
    of two the nearer one. -/
def Interval.onGrid? (i : Interval) (t : Int) : Option Nat :=
  let step := gridStep t
  let num := i.value * step.2
  let den := i.den * step.1
  let k := num / den
  if i.contains step k && i.contains step (k + 1) then
    some (halfEven num den)
  else if i.contains step k && k ≠ 0 then some k
  else if i.contains step (k + 1) then some (k + 1)
  else none

/-- The number of places before the point of a positive quotient; zero and
    negative numbers count the zeros after the point. The search starts from a
    bound by the number of binary digits and corrects it. -/
def placesOf (num den : Nat) : Int :=
  if den ≤ num then ((Nat.toDigits 10 (num / den)).length : Int)
  else
    -- With `num · 10 ^ z ≥ den` for the least `z`, the quotient begins `z` places
    -- after the point.
    let z := (Nat.toDigits 10 ((den - 1) / num)).length
    1 - (z : Int)

/-- Drops trailing zeros of the digits, at most as many as the first argument
    says. -/
def dropZeros : Nat → Decimal → Decimal
  | 0, d => d
  | fuel + 1, d =>
    if d.digits ≠ 0 ∧ d.digits % 10 = 0 then dropZeros fuel ⟨d.digits / 10, d.exponent + 1⟩ else d

/-- The shortest decimal of the positive number `m · 2 ^ e`. Seventeen digits
    always suffice. -/
def digits (m : Nat) (e : Int) : Decimal :=
  let i := intervalOf m e
  let places := placesOf i.value i.den
  let found := (List.range 17).findSome? fun n =>
    let t := places - ((n : Nat) + 1 : Nat)
    (i.onGrid? t).map fun k => (⟨k, t⟩ : Decimal)
  dropZeros 20 (found.getD ⟨0, 0⟩)

end Shortest

/-- How a format writes a number: between which places of the decimal point it
    writes no exponent, and what it writes for the values without digits. -/
structure FloatNotation where
  /-- The point may stand this many places before the first digit, as a number
      that is not positive. -/
  fewestPlaces : Int
  /-- The point may stand this many places after the first digit. -/
  mostPlaces : Int
  /-- The exponent has a sign and at least this many digits. -/
  exponentWidth : Nat
  infinity : String
  notANumber : String

namespace FloatNotation

/-- Digits padded with zeros in front. -/
def padLeft (width : Nat) (s : List Char) : List Char :=
  List.replicate (width - s.length) '0' ++ s

/-- Digits with the point after the given number of places. A whole number gets
    one zero after the point. -/
def positional (ds : List Char) (places : Int) : List Char :=
  if places ≤ 0 then '0' :: '.' :: (List.replicate (-places).toNat '0' ++ ds)
  else
    let p := places.toNat
    if ds.length ≤ p then ds ++ List.replicate (p - ds.length) '0' ++ ['.', '0']
    else ds.take p ++ '.' :: ds.drop p

/-- Digits with the point after the first of them, and an exponent. -/
def scientific (f : FloatNotation) (ds : List Char) (exponent : Int) : List Char :=
  let mantissa :=
    match ds with
    | [] => []
    | [d] => [d]
    | d :: rest => d :: '.' :: rest
  let sign := if exponent < 0 then '-' else '+'
  mantissa ++ 'e' :: sign :: padLeft f.exponentWidth (Nat.toDigits 10 exponent.natAbs)

/-- The text of a number: its shortest digits, with the decimal point where the
    notation wants it. -/
def write (f : FloatNotation) : Binary64 → List Char
  | .notANumber => f.notANumber.toList
  | .infinite negative => (if negative then ['-'] else []) ++ f.infinity.toList
  | .finite negative m e =>
    let sign := if negative then ['-'] else []
    if m = 0 then sign ++ ['0', '.', '0']
    else
      let d := Shortest.digits m e
      let ds := Nat.toDigits 10 d.digits
      let places := (ds.length : Int) + d.exponent
      if f.fewestPlaces ≤ places ∧ places ≤ f.mostPlaces then sign ++ positional ds places
      else sign ++ f.scientific ds (places - 1)

end FloatNotation

end PageDistill
