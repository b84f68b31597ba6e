import PageDistill.Entries
import PageDistill.Number.Integer

/-!
# Reference Maps

The table of short tokens that stand for long URLs or for their directories.

Keys stand in the order in which they came up, and the token of a key is `ref`
with the number of keys before it. `intern` finds the token of a key, and makes
one for a key that has none.

## Main definitions

* `ReferenceMap`: Pairs of a key and its token.
* `ReferenceMap.nextToken`: The token of the next new key.
* `ReferenceMap.intern`: The token of a key, and the map that has it.

## Theorems

* `lookup?_intern`: After interning a key, the map knows its token.
* `intern_of_lookup?`: Interning a known key changes nothing.
-/

namespace PageDistill

/-- Keys with their tokens, in the order in which they came up. -/
abbrev ReferenceMap := List (String × String)

namespace ReferenceMap

/-- The token with a number. -/
def tokenOf (n : Nat) : String := "ref" ++ String.ofList (Number.naturalText n)

/-- The token of the next new key. -/
def nextToken (m : ReferenceMap) : String := tokenOf m.length

/-- The token of a key, with the map that has it. -/
def intern (m : ReferenceMap) (key : String) : String × ReferenceMap :=
  match Entries.lookup? m key with
  | some token => (token, m)
  | none => (m.nextToken, m ++ [(key, m.nextToken)])

/-- After interning a key, the map knows its token. -/
theorem lookup?_intern (m : ReferenceMap) (key : String) :
    Entries.lookup? (m.intern key).2 key = some (m.intern key).1 := by
  rw [intern]
  cases h : Entries.lookup? m key with
  | some token => exact h
  | none => simp [Entries.lookup?_append, Entries.lookup?, h]

/-- Interning a known key changes nothing. -/
theorem intern_of_lookup? (m : ReferenceMap) (key token : String)
    (h : Entries.lookup? m key = some token) : m.intern key = (token, m) := by
  rw [intern, h]

end ReferenceMap

end PageDistill
