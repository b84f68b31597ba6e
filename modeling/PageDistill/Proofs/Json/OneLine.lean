import Mathlib.Data.List.Basic
import PageDistill.Json.Writer
import PageDistill.Proofs.Markdown.TableLines

/-!
# JSON Text on One Line

JSON text holds no line end.

Between values and around them there is no blank space at all, numbers have digits and signs, and
inside a string a line end has a code of its own. So a value can be written behind a key without
a look at what it is, which is what structured data in front matter relies on.

## Theorems

* `lineEnd_not_mem_float`: Numbers.
* `lineEnd_not_mem_quoteString`: Strings.
* `Value.lineEnd_not_mem_write`: Values.
-/

namespace PageDistill

namespace Json

theorem lineEnd_not_mem_digits (n : Nat) : '\n' ∉ Nat.toDigits 10 n :=
  Number.not_mem_naturalText n (by decide)

/-- Digits with a point among them or after them. -/
theorem lineEnd_not_mem_positional {ds : List Char} (h : '\n' ∉ ds) (places : Int) :
    '\n' ∉ FloatNotation.positional ds places := by
  have htake : ∀ p, '\n' ∉ ds.take p := fun p hp => h (List.mem_of_mem_take hp)
  have hdrop : ∀ p, '\n' ∉ ds.drop p := fun p hp => h (List.mem_of_mem_drop hp)
  unfold FloatNotation.positional
  by_cases hsmall : places ≤ 0
  · rw [if_pos hsmall]
    simp [h, List.mem_replicate]
  · simp only [if_neg hsmall]
    by_cases hwhole : ds.length ≤ places.toNat
    · rw [if_pos hwhole]
      simp [h, List.mem_replicate]
    · rw [if_neg hwhole]
      simp [htake, hdrop]

/-- Digits with a point after the first one, and the exponent. -/
theorem lineEnd_not_mem_scientific (f : FloatNotation) {ds : List Char} (h : '\n' ∉ ds)
    (exponent : Int) : '\n' ∉ f.scientific ds exponent := by
  have hexponent :
      '\n' ∉ FloatNotation.padLeft f.exponentWidth (Nat.toDigits 10 exponent.natAbs) := by
    simp [FloatNotation.padLeft, List.mem_replicate, lineEnd_not_mem_digits]
  have hsign : '\n' ≠ if exponent < 0 then '-' else '+' := by split <;> decide
  have htail := List.not_mem_cons_of_ne_of_not_mem (show '\n' ≠ 'e' by decide)
    (List.not_mem_cons_of_ne_of_not_mem hsign hexponent)
  unfold FloatNotation.scientific
  refine fun hmem => (List.mem_append.mp hmem).elim ?_ htail
  match ds, h with
  | [], h => exact h
  | [d], h => exact h
  | d :: e :: rest, h => simpa using h

/-- No number is written with a line end. -/
theorem lineEnd_not_mem_float (x : Binary64) : '\n' ∉ writtenFloat.write x := by
  cases x with
  | notANumber => decide
  | infinite negative => cases negative <;> decide
  | finite negative m e =>
      have hsign : '\n' ∉ if negative then ['-'] else [] := by cases negative <;> decide
      have hdigits := lineEnd_not_mem_digits (Shortest.digits m e).digits
      unfold FloatNotation.write
      by_cases hzero : m = 0
      · simp only [if_pos hzero]
        exact fun h => (List.mem_append.mp h).elim hsign (by decide)
      · simp only [if_neg hzero]
        split
        · exact fun h => (List.mem_append.mp h).elim hsign (lineEnd_not_mem_positional hdigits _)
        · exact fun h => (List.mem_append.mp h).elim hsign (lineEnd_not_mem_scientific _ hdigits _)

theorem lineEnd_not_mem_lowerHex (width n : Nat) : '\n' ∉ Text.lowerHex width n := by
  have hdigit : ∀ d < 16, '\n' ≠ Text.lowerHexDigit d := by decide
  induction width generalizing n with
  | zero => exact List.not_mem_nil
  | succ width ih =>
      unfold Text.lowerHex
      rw [List.mem_append, not_or, List.mem_singleton]
      exact ⟨ih _, hdigit _ (Nat.mod_lt n (by decide))⟩

/-- A line end in a string is written as a code. -/
theorem lineEnd_not_mem_stringCode (c : Char) : '\n' ∉ stringCode c := by
  unfold stringCode
  by_cases hline : c = '\n'
  · rw [hline]
    decide
  · rw [if_neg hline]
    repeat' split
    all_goals simp [lineEnd_not_mem_lowerHex, Ne.symm hline]

/-- So a string in quotes is on one line. -/
theorem lineEnd_not_mem_quoteString (s : String) : '\n' ∉ quoteString s := by
  unfold quoteString
  simp [lineEnd_not_mem_stringCode]

/-- Commas come between the parts of a list, and brackets around them. -/
theorem lineEnd_not_mem_enclosed {before after : Char} {parts : List (List Char)}
    (hbefore : '\n' ≠ before) (hafter : '\n' ≠ after) (h : ∀ part ∈ parts, '\n' ∉ part) :
    '\n' ∉ before :: (Text.joinWith [','] parts ++ [after]) := by
  have hjoined : '\n' ∉ Text.joinWith [','] parts := by
    intro hmem
    rcases Text.mem_joinWith _ _ _ hmem with hcomma | ⟨part, hpart, hmem⟩
    · exact absurd hcomma (by decide)
    · exact h part hpart hmem
  simp [hbefore, hafter, hjoined]

mutual

/-- JSON text holds no line end. -/
theorem Value.lineEnd_not_mem_write (value : Value) : '\n' ∉ value.write := by
  cases value with
  | null => decide
  | bool b => cases b <;> decide
  | integer n => exact Markdown.not_mem_integerText n '\n' (by decide) (by decide)
  | float x => exact lineEnd_not_mem_float x
  | string s => exact lineEnd_not_mem_quoteString s
  | array items =>
      exact lineEnd_not_mem_enclosed (by decide) (by decide) (lineEnd_not_mem_items items)
  | object members =>
      exact lineEnd_not_mem_enclosed (by decide) (by decide) (lineEnd_not_mem_members members)

theorem lineEnd_not_mem_items (items : List Value) : ∀ part ∈ writeItems items, '\n' ∉ part := by
  cases items with
  | nil => exact fun _ hpart => absurd hpart List.not_mem_nil
  | cons item items =>
      exact List.forall_mem_cons.mpr ⟨item.lineEnd_not_mem_write, lineEnd_not_mem_items items⟩

theorem lineEnd_not_mem_members (members : List (String × Value)) :
    ∀ part ∈ writeMembers members, '\n' ∉ part := by
  match members with
  | [] => exact fun _ hpart => absurd hpart List.not_mem_nil
  | (key, value) :: members =>
      refine List.forall_mem_cons.mpr ⟨?_, lineEnd_not_mem_members members⟩
      have hvalue := value.lineEnd_not_mem_write
      simp [lineEnd_not_mem_quoteString, hvalue]

end

end Json

end PageDistill
