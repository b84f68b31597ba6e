import PageDistill.Text.Blank
import PageDistill.Text.DecimalDigit

/-!
# Integers as Text

The decimal text of an integer, and the integer that a text spells.

Written text has a sign only when it is negative. Text to read may have more:
blank space around it, one sign, decimal digits of any script, and single
underscores between digits.

A text of more than 4300 digits is refused, so that reading a hostile attribute
takes bounded time. The information separators U+001C–U+001F, blank elsewhere,
are not blank around an integer.

## Main definitions

* `naturalText`, `integerText`: The text of a number.
* `digitRun?`: The digits of a run with single underscores between them.
* `readInteger?`: The integer of a text.
* `boundedNaturalText?`, `tooManyDigits`: Text with a bound on its digits.

## Theorems

* `not_mem_naturalText`: The text of a number holds nothing but digits.
* `ofDigitChars_naturalText`: A number is read back from its text.
* `le_of_boundedNaturalText?_eq_none`, `lt_of_boundedNaturalText?_eq_some`: The great numbers are
  refused, and no others.
* `readInteger?_naturalText`: Other numbers are read back as integers.
-/

namespace PageDistill

namespace Number

/-- The decimal text of a natural number. -/
def naturalText (n : Nat) : List Char := Nat.toDigits 10 n

theorem isDigit_of_mem_naturalText {n : Nat} {c : Char} (h : c ∈ naturalText n) :
    c.isDigit = true :=
  Nat.isDigit_of_mem_toDigits (by omega) (by omega) h

theorem not_mem_naturalText (n : Nat) {c : Char} (h : c.isDigit = false) : c ∉ naturalText n := by
  intro hmem
  rw [isDigit_of_mem_naturalText hmem] at h
  exact Bool.noConfusion h

theorem naturalText_ne_nil (n : Nat) : naturalText n ≠ [] := Nat.toDigits_ne_nil

/-- Reading the digits of a number gives it back. -/
theorem ofDigitChars_naturalText (n : Nat) : Nat.ofDigitChars 10 (naturalText n) 0 = n :=
  Nat.ofDigitChars_ten_toDigits

/-- The decimal text of an integer. -/
def integerText (n : Int) : List Char :=
  (if n < 0 then ['-'] else []) ++ naturalText n.natAbs

/-- Digits with single underscores between them, as values. Neither end is an
    underscore. -/
def digitRun? : List Char → Option (List Nat)
  | [] => none
  | [c] => (Text.digitValue? c).map ([·])
  | c :: '_' :: rest =>
    match Text.digitValue? c with
    | none => none
    | some d => (digitRun? rest).map (d :: ·)
  | c :: rest =>
    match Text.digitValue? c with
    | none => none
    | some d => (digitRun? rest).map (d :: ·)

/-- The number whose decimal digits are given, most significant first. -/
def ofDigits (ds : List Nat) : Nat := ds.foldl (fun n d => 10 * n + d) 0

/-- Blank space as an integer has it around it. -/
def isNumberBlank (c : Char) : Bool :=
  Text.isBlank c && !(0x1C ≤ c.toNat && c.toNat ≤ 0x1F)

/-- The most digits that are read, and that a bounded text has. -/
def mostDigits : Nat := 4300

/-- A natural number from its digit text. -/
def readNatural? (s : List Char) : Option Nat :=
  match digitRun? s with
  | none => none
  | some ds => if ds.length ≤ mostDigits then some (ofDigits ds) else none

/-- The integer that a text spells. -/
def readInteger? (s : List Char) : Option Int :=
  match Text.trimBy isNumberBlank s with
  | '-' :: rest => (readNatural? rest).map fun n => -(n : Int)
  | '+' :: rest => (readNatural? rest).map fun n => (n : Int)
  | rest => (readNatural? rest).map fun n => (n : Int)

/-- The decimal text of a natural number that has at most `mostDigits` digits. -/
def boundedNaturalText? (n : Nat) : Option (List Char) :=
  if n < Nat.pow 10 mostDigits then some (naturalText n) else none

/-- Only numbers of too many digits are refused, -/
theorem le_of_boundedNaturalText?_eq_none (n : Nat) (h : boundedNaturalText? n = none) :
    Nat.pow 10 mostDigits ≤ n := by
  unfold boundedNaturalText? at h
  by_cases hlt : n < Nat.pow 10 mostDigits
  · rw [if_pos hlt] at h
    exact absurd h (by simp)
  · exact Nat.not_lt.mp hlt

/-- and all of them are. -/
theorem lt_of_boundedNaturalText?_eq_some {n : Nat} {digits : List Char}
    (h : boundedNaturalText? n = some digits) : n < Nat.pow 10 mostDigits := by
  unfold boundedNaturalText? at h
  by_cases hlt : n < Nat.pow 10 mostDigits
  · exact hlt
  · rw [if_neg hlt] at h
    exact absurd h nofun

theorem toNat_of_isDigit {c : Char} (h : c.isDigit = true) :
    '0'.toNat ≤ c.toNat ∧ c.toNat < '0'.toNat + 10 := by
  rw [Char.isDigit, Bool.and_eq_true, decide_eq_true_eq, decide_eq_true_eq] at h
  have hle := UInt32.le_iff_toNat_le.mp h.1
  have hge := UInt32.le_iff_toNat_le.mp h.2
  exact ⟨hle, Nat.lt_succ_of_le hge⟩

theorem isNumberBlank_of_isDigit {c : Char} (h : c.isDigit = true) : isNumberBlank c = false := by
  have hbounds := toNat_of_isDigit h
  have hzero : '0'.toNat = 48 := rfl
  simp only [isNumberBlank, Text.isBlank, Bool.and_eq_false_iff, Bool.or_eq_false_iff,
    decide_eq_false_iff_not, beq_eq_false_iff_ne]
  omega

-- The digits of written numbers come first among the digits of all scripts.
theorem digitValue?_of_isDigit {c : Char} (h : c.isDigit = true) :
    Text.digitValue? c = some (c.toNat - '0'.toNat) := by
  have hbounds := toNat_of_isDigit h
  rw [Text.digitValue?, Text.digitZeros, List.find?_cons_of_pos]
  · rfl
  · simpa using hbounds

-- A run of digits without underscores is read digit by digit.
theorem digitRun?_of_digits {s : List Char} (hne : s ≠ []) (h : ∀ c ∈ s, c.isDigit = true) :
    digitRun? s = some (s.map fun c => c.toNat - '0'.toNat) := by
  induction s with
  | nil => exact absurd rfl hne
  | cons c rest ih =>
      rcases List.forall_mem_cons.mp h with ⟨hc, hrest⟩
      have hvalue := digitValue?_of_isDigit hc
      cases rest with
      | nil => rw [digitRun?, hvalue]; rfl
      | cons d others =>
          -- The next character is a digit, so no underscore is skipped.
          have hd : d ≠ '_' := by
            rintro rfl
            exact absurd (hrest '_' List.mem_cons_self) (by decide)
          rw [digitRun?, hvalue, ih (List.cons_ne_nil d others) hrest]
          · rfl
          · exact nofun
          · intro _ hlist
            exact hd (List.cons.inj hlist).1

theorem ofDigits_map (s : List Char) :
    ofDigits (s.map fun c => c.toNat - '0'.toNat) = Nat.ofDigitChars 10 s 0 := by
  rw [ofDigits, List.foldl_map, Nat.ofDigitChars_eq_foldl]

theorem length_naturalText_le {n count : Nat} (hpos : 0 < count) (h : n < Nat.pow 10 count) :
    (naturalText n).length ≤ count :=
  (Nat.length_toDigits_le_iff (by omega) hpos).mpr h

/-- The text of a number that does not have too many digits is read back. -/
theorem readInteger?_naturalText {n : Nat} (h : n < Nat.pow 10 mostDigits) :
    readInteger? (naturalText n) = some (n : Int) := by
  have hdigits : ∀ c ∈ naturalText n, c.isDigit = true := fun _ hc => isDigit_of_mem_naturalText hc
  have hread : readNatural? (naturalText n) = some n := by
    have hlength := length_naturalText_le (by decide) h
    rw [readNatural?, digitRun?_of_digits (naturalText_ne_nil n) hdigits]
    simp only
    rw [List.length_map, if_pos hlength, ofDigits_map, ofDigitChars_naturalText]
  rw [readInteger?, Text.trimBy_eq_self fun c hc => isNumberBlank_of_isDigit (hdigits c hc)]
  -- The text begins with a digit, so there is no sign to read.
  split
  · next heq =>
    rw [heq] at hdigits
    exact absurd (hdigits '-' List.mem_cons_self) (by decide)
  · next heq =>
    rw [heq] at hdigits
    exact absurd (hdigits '+' List.mem_cons_self) (by decide)
  · rw [hread]
    rfl

/-- What is said about an integer of too many digits; the number of digits is
    said when they were counted. -/
def tooManyDigits (count : Option Nat) : String :=
  let number := fun n => String.ofList (naturalText n)
  let counted :=
    match count with
    | some n => ": value has " ++ number n ++ " digits"
    | none => ""
  "Exceeds the limit (" ++ number mostDigits ++ " digits) for integer string conversion" ++
    counted ++ "; use sys.set_int_max_str_digits() to increase the limit"

end Number

end PageDistill
