import PageDistill.Number.Shortest

/-!
# Decimals With Fixed Places

A number written with a fixed count of places after the point, rounded from its
exact value, ties to the even digit.

## Main definitions

* `fixedPlaces?`: The text of a finite number with the given places.
-/

namespace PageDistill

/-- The text of a finite number with a fixed count of places after the point.
    Other numbers have no such text. -/
def fixedPlaces? (places : Nat) : Binary64 → Option (List Char)
  | .finite negative m e =>
    let unit := Nat.pow 10 places
    let units :=
      if 0 ≤ e then m * unit * Nat.pow 2 e.toNat else halfEven (m * unit) (Nat.pow 2 (-e).toNat)
    let whole := Nat.toDigits 10 (units / unit)
    let fraction := FloatNotation.padLeft places (Nat.toDigits 10 (units % unit))
    some ((if negative then ['-'] else []) ++ whole ++ (if places = 0 then [] else '.' :: fraction))
  | _ => none

end PageDistill
