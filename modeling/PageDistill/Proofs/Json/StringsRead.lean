import PageDistill.Json.Reader
import PageDistill.Json.Writer

/-!
# Strings Are Read Back

A string that is written as JSON text is read as the string it was.

The code of a character is one of four kinds: the character itself, a backslash with the character,
a backslash with a letter, or a backslash with `u` and four hexadecimal digits. The reader makes one
unit of each. Units are joined to characters at the end, where half of a surrogate pair would wait
for the other half; a character is never such a half, so each unit is read as the character that it
came from.

## Theorems

* `readUnits?_stringCode`: The code of a character is read as one unit.
* `joinSurrogates_toNat`: The units of characters are joined to the characters.
* `readString_written`: A string after its opening mark is read back.
* `readValue_quoteString`: So is a string that stands as a value.
-/

namespace PageDistill

namespace Json

/-- Sixteen digits. -/
theorem hexValue?_lowerHexDigit (n : Nat) (h : n < 16) :
    hexValue? (Text.lowerHexDigit n) = some n := by
  have key : ∀ k : Fin 16, hexValue? (Text.lowerHexDigit k) = some k.val := by decide
  exact key ⟨n, h⟩

/-- Four digits are read as the number that they were written for. -/
theorem hexQuad?_lowerHex (n : Nat) (h : n < 65536) :
    ∃ a b c d, Text.lowerHex 4 n = [a, b, c, d] ∧ hexQuad? a b c d = some n := by
  refine ⟨_, _, _, _, rfl, ?_⟩
  unfold hexQuad?
  rw [hexValue?_lowerHexDigit _ (Nat.mod_lt _ (by decide)),
    hexValue?_lowerHexDigit _ (Nat.mod_lt _ (by decide)),
    hexValue?_lowerHexDigit _ (Nat.mod_lt _ (by decide)),
    hexValue?_lowerHexDigit _ (Nat.mod_lt _ (by decide))]
  change some ((((n / 16 / 16 / 16 % 16) * 16 + n / 16 / 16 % 16) * 16 + n / 16 % 16) * 16 +
    n % 16) = some n
  congr 1
  omega

/-- The units with one more in front. -/
def withUnit (n : Nat) (front : List Nat × List Char) : List Nat × List Char :=
  (n :: front.1, front.2)

/-- A backslash with a letter other than `u`. -/
theorem readUnits?_escape {letter c : Char} (hletter : letter ≠ 'u')
    (h : escapeLetter? letter = some c) (rest : List Char) :
    readUnits? ('\\' :: letter :: rest) = (readUnits? rest).map (withUnit c.toNat) := by
  rw [readUnits?.eq_4 _ _ fun _ _ _ _ _ hu => absurd hu hletter, h]
  cases readUnits? rest <;> rfl

/-- The code of a character is read as one unit. -/
theorem readUnits?_stringCode (c : Char) (rest : List Char) :
    readUnits? (stringCode c ++ rest) = (readUnits? rest).map (withUnit c.toNat) := by
  unfold stringCode
  by_cases hmark : c = '"' ∨ c = '\\'
  · rw [if_pos hmark]
    rcases hmark with rfl | rfl
    · exact readUnits?_escape (by decide) rfl rest
    · exact readUnits?_escape (by decide) rfl rest
  · rw [if_neg hmark]
    -- The characters with a letter of their own.
    by_cases hline : c = '\n'
    · rw [if_pos hline, hline]
      exact readUnits?_escape (by decide) rfl rest
    rw [if_neg hline]
    by_cases hreturn : c = '\r'
    · rw [if_pos hreturn, hreturn]
      exact readUnits?_escape (by decide) rfl rest
    rw [if_neg hreturn]
    by_cases htab : c = '\t'
    · rw [if_pos htab, htab]
      exact readUnits?_escape (by decide) rfl rest
    rw [if_neg htab]
    by_cases hback : c.toNat = 8
    · rw [if_pos hback, hback]
      exact readUnits?_escape (c := Char.ofNat 8) (by decide) rfl rest
    rw [if_neg hback]
    by_cases hfeed : c.toNat = 12
    · rw [if_pos hfeed, hfeed]
      exact readUnits?_escape (c := Char.ofNat 12) (by decide) rfl rest
    rw [if_neg hfeed]
    by_cases hcontrol : c.toNat < 0x20
    · rw [if_pos hcontrol]
      rcases hexQuad?_lowerHex c.toNat (by omega) with ⟨a, b, d, e, hdigits, hquad⟩
      rw [hdigits]
      change readUnits? ('\\' :: 'u' :: a :: b :: d :: e :: rest) = _
      rw [readUnits?.eq_3, hquad]
      cases readUnits? rest <;> rfl
    · rw [if_neg hcontrol]
      rw [not_or] at hmark
      change readUnits? (c :: rest) = _
      rw [readUnits?.eq_5 _ _ hmark.1 (fun _ _ _ _ _ h _ => hmark.2 h) fun _ _ h _ => hmark.2 h,
        if_neg (not_or.mpr ⟨hcontrol, hmark.2⟩)]
      cases readUnits? rest <;> rfl

theorem readUnits?_written (s rest : List Char) :
    readUnits? (s.flatMap stringCode ++ '"' :: rest) = some (s.map Char.toNat, rest) := by
  induction s with
  | nil => rfl
  | cons c s ih =>
      rw [List.flatMap_cons, List.append_assoc, readUnits?_stringCode, ih]
      rfl

/-- A character is no half of a surrogate pair. -/
theorem not_surrogate (c : Char) : ¬(0xD800 ≤ c.toNat ∧ c.toNat ≤ 0xDFFF) := by
  have hvalid : c.toNat < 0xD800 ∨ 0xDFFF < c.toNat ∧ c.toNat < 0x110000 := c.valid
  omega

/-- The units of characters are joined to the characters. -/
theorem joinSurrogates_toNat (s : List Char) : joinSurrogates (s.map Char.toNat) = s := by
  induction s with
  | nil => rfl
  | cons c s ih =>
      have hc := not_surrogate c
      cases s with
      | nil =>
          change [if 0xD800 ≤ c.toNat ∧ c.toNat ≤ 0xDFFF then _ else _] = _
          rw [if_neg hc, Char.ofNat_toNat]
      | cons d s =>
          rw [List.map_cons, List.map_cons, joinSurrogates, if_neg (by omega), if_neg hc,
            Char.ofNat_toNat]
          exact congrArg (c :: ·) ih

/-- A string after its opening mark is read back. -/
theorem readString_written (s : String) (rest : List Char) :
    readString (s.toList.flatMap stringCode ++ '"' :: rest) = .ok (s, rest) := by
  unfold readString
  rw [readUnits?_written]
  simp only [joinSurrogates_toNat, String.ofList_toList]

theorem quoteString_append (s : String) (rest : List Char) :
    quoteString s ++ rest = '"' :: (s.toList.flatMap stringCode ++ '"' :: rest) := by
  unfold quoteString
  rw [List.cons_append, List.append_assoc, List.singleton_append]

/-- A string that stands as a value is read back. -/
theorem readValue_quoteString (depth : Nat) (s : String) (rest : List Char) :
    readValue (depth + 1) (quoteString s ++ rest) = .ok (.string s, rest) := by
  rw [quoteString_append, readValue, readString_written]
  rfl

end Json

end PageDistill
