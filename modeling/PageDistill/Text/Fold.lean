/-!
# Folding Letter Case

Names of elements and suffixes of files are compared without regard to case.
All the names compared with are ASCII, so folding needs to be right only where
it can produce an ASCII letter: for the ASCII capitals, and for the Kelvin sign
U+212A, whose lower case is the letter `k`. No other character has a lower case
that is one ASCII letter.

## Main definitions

* `foldChar`, `fold`: The folded form of a character and of a text.
* `foldName`: The folded form of a name.

## Theorems

* `foldName_foldName`: Folding twice does no more than folding once.
-/

namespace PageDistill

namespace Text

/-- The lower case of an ASCII capital and of the Kelvin sign; other characters
    are left alone. -/
def foldChar (c : Char) : Char :=
  if c = Char.ofNat 0x212A then 'k' else c.toLower

/-- The text with every character folded. -/
def fold (s : List Char) : List Char := s.map foldChar

/-- The name with every character folded. -/
def foldName (name : String) : String := String.ofList (fold name.toList)

theorem foldChar_foldChar (c : Char) : foldChar (foldChar c) = foldChar c := by
  -- All capitals, with what stands before them.
  have hcapitals : ∀ n < 91, foldChar (foldChar (Char.ofNat n)) = foldChar (Char.ofNat n) := by
    decide
  by_cases hc : c.toNat < 91
  · rw [← Char.ofNat_toNat c]
    exact hcapitals c.toNat hc
  · have hlower : c.toLower = c := by
      refine dif_neg fun h => hc ?_
      have hle : c.val.toNat ≤ 90 := UInt32.le_iff_toNat_le.mp h.2
      exact Nat.lt_succ_of_le hle
    by_cases hkelvin : c = Char.ofNat 0x212A
    · rw [hkelvin]
      decide
    · have hself : foldChar c = c := (if_neg hkelvin).trans hlower
      rw [hself, hself]

/-- Folding twice does no more than folding once. -/
theorem foldName_foldName (name : String) : foldName (foldName name) = foldName name := by
  unfold foldName fold
  rw [String.toList_ofList, List.map_map]
  exact congrArg String.ofList (List.map_congr_left fun c _ => foldChar_foldChar c)

end Text

end PageDistill
