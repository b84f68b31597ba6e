import Mathlib.Data.List.Induction
import PageDistill.Markdown.FrontMatter

/-!
# Values Between Quotation Marks

When a value between quotation marks can be read back.

A reader of a quoted text looks for a quotation mark that is not escaped, and a mark is escaped
by an odd number of backslashes before it. So the text is well quoted if that holds for every mark
inside it and does not hold for the last one.

`quotedValue` puts one backslash before every mark of the value and leaves the backslashes of the
value as they are. That one backslash escapes the mark only if it is not escaped itself. So it
depends on the value whether the text is well quoted, and `wellQuoted_quotedValue_iff` says how:
there has to be an even number of backslashes before each mark of the value, and at its end.

## Main definitions

* `EscapedAfter`: Whether what follows a text is escaped.
* `WellQuoted`: A text between quotation marks that ends at the last of them.
* `Quotable`: The values that are well quoted.

## Theorems

* `wellQuoted_quotedValue_iff`: Which values are well quoted.
-/

namespace PageDistill

namespace Markdown

/-- The number of backslashes at the end of a text. -/
def backslashRun (s : List Char) : Nat := (s.reverse.takeWhile (· == '\\')).length

/-- Whether the backslashes at the end of a text escape what follows. -/
def EscapedAfter (before : List Char) : Prop := backslashRun before % 2 = 1

instance (before : List Char) : Decidable (EscapedAfter before) :=
  inferInstanceAs (Decidable (backslashRun before % 2 = 1))

/-- A text between quotation marks in which every inner mark is escaped, and the last one is
    not. -/
def WellQuoted (s : List Char) : Prop :=
  ∃ inner, s = '"' :: (inner ++ ['"']) ∧
    (∀ before after, inner = before ++ '"' :: after → EscapedAfter before) ∧ ¬EscapedAfter inner

/-- A value whose backslashes escape neither a mark in it nor what follows it. -/
def Quotable (value : List Char) : Prop :=
  (∀ before after, value = before ++ '"' :: after → ¬EscapedAfter before) ∧ ¬EscapedAfter value

/-- A mark stands at a position, behind what is before that position. -/
theorem forall_marks_iff (value : List Char) (p : List Char → Prop) :
    (∀ i < value.length, value[i]? = some '"' → p (value.take i)) ↔
      ∀ before after, value = before ++ '"' :: after → p before := by
  constructor
  · rintro h before after rfl
    simpa using h before.length (by simp) (by simp)
  · intro h i _ hmark
    rcases List.getElem?_eq_some_iff.mp hmark with ⟨hi, hget⟩
    refine h _ (value.drop (i + 1)) ?_
    rw [← hget, List.getElem_cons_drop, List.take_append_drop]

instance (value : List Char) : Decidable (Quotable value) :=
  decidable_of_iff ((∀ i < value.length, value[i]? = some '"' → ¬EscapedAfter (value.take i)) ∧
    ¬EscapedAfter value)
    (and_congr_left' (forall_marks_iff value fun before => ¬EscapedAfter before))

/-- The code of a character between quotation marks. -/
def markCode (c : Char) : List Char := if c = '"' then ['\\', '"'] else [c]

theorem markCode_of_ne {c : Char} (h : c ≠ '"') : markCode c = [c] := if_neg h

theorem quotedValue_eq (value : String) :
    quotedValue value = '"' :: (value.toList.flatMap markCode ++ ['"']) := rfl

/-- A quoted value holds the characters of the value, and backslashes and marks. -/
theorem mem_quotedValue_of_mem {value : String} {c : Char} (h : c ∈ value.toList) :
    c ∈ quotedValue value := by
  rw [quotedValue_eq]
  refine List.mem_cons_of_mem _ (List.mem_append_left _ (List.mem_flatMap.mpr ⟨c, h, ?_⟩))
  by_cases hquote : c = '"'
  · rw [hquote]
    decide
  · rw [markCode_of_ne hquote]
    exact List.mem_singleton_self c

/-- Quoting adds quotes and backslashes only. -/
theorem mem_of_mem_quotedValue {value : String} {c : Char} (hquote : c ≠ '"') (hslash : c ≠ '\\')
    (h : c ∈ quotedValue value) : c ∈ value.toList := by
  rw [quotedValue_eq] at h
  rcases List.mem_append.mp (List.mem_of_ne_of_mem hquote h) with h | h
  · rcases List.mem_flatMap.mp h with ⟨d, hd, hc⟩
    by_cases hmark : d = '"'
    · rw [hmark] at hc
      simp [markCode, hquote, hslash] at hc
    · rw [markCode_of_ne hmark] at hc
      rw [List.mem_singleton.mp hc]
      exact hd
  · exact absurd (List.mem_singleton.mp h) hquote

/-- A backslash makes the run longer, and any other character ends it. -/
theorem backslashRun_concat (s : List Char) (c : Char) :
    backslashRun (s ++ [c]) = if c = '\\' then backslashRun s + 1 else 0 := by
  unfold backslashRun
  rw [List.reverse_append, List.reverse_singleton, List.singleton_append]
  by_cases hc : c = '\\'
  · simp [hc]
  · simp [hc]

/-- One more backslash turns the matter around. -/
theorem escapedAfter_concat_backslash (s : List Char) :
    EscapedAfter (s ++ ['\\']) ↔ ¬EscapedAfter s := by
  unfold EscapedAfter
  rw [backslashRun_concat, if_pos rfl]
  omega

/-- The codes of a text end in as many backslashes as the text. -/
theorem escapedAfter_codes (s : List Char) :
    EscapedAfter (s.flatMap markCode) ↔ EscapedAfter s := by
  unfold EscapedAfter
  suffices h : backslashRun (s.flatMap markCode) = backslashRun s by rw [h]
  induction s using List.reverseRecOn with
  | nil => rfl
  | append_singleton s c ih =>
      rw [List.flatMap_append, List.flatMap_singleton, backslashRun_concat]
      by_cases hquote : c = '"'
      · have hcode :
            s.flatMap markCode ++ markCode '"' = s.flatMap markCode ++ ['\\'] ++ ['"'] := by
          simp [markCode]
        rw [hquote, hcode, backslashRun_concat]
        rfl
      · rw [markCode_of_ne hquote, backslashRun_concat, ih]

theorem codes_append_mark (before after : List Char) :
    (before ++ '"' :: after).flatMap markCode =
      before.flatMap markCode ++ ['\\'] ++ '"' :: after.flatMap markCode := by
  rw [List.flatMap_append, List.flatMap_cons]
  simp [markCode]

/-- A character of a coded text stands in the code of one character, with the codes of those before
    and behind that one around it. -/
theorem exists_of_flatMap_eq {code : Char → List Char} {s before after : List Char} {c : Char}
    (h : s.flatMap code = before ++ c :: after) :
    ∃ left d right front back, s = left ++ d :: right ∧ code d = front ++ c :: back ∧
      before = left.flatMap code ++ front ∧ after = back ++ right.flatMap code := by
  induction s generalizing before with
  | nil => exact absurd h (by simp)
  | cons d rest ih =>
      rw [List.flatMap_cons] at h
      rcases List.append_eq_append_iff.mp h with ⟨more, rfl, hrest⟩ | ⟨back, hcode, hafter⟩
      · rcases ih hrest with ⟨left, e, right, front, back, rfl, he, rfl, rfl⟩
        exact ⟨d :: left, e, right, front, back, rfl, he,
          by rw [List.flatMap_cons, List.append_assoc], rfl⟩
      · cases back with
        | nil =>
            -- The code ends right before the character, which begins the codes behind it.
            rw [List.append_nil] at hcode
            have hrest : rest.flatMap code = [] ++ c :: after := hafter.symm
            rcases ih hrest with ⟨left, e, right, front, back, rfl, he, hnil, rfl⟩
            refine ⟨d :: left, e, right, front, back, rfl, he, ?_, rfl⟩
            rw [List.flatMap_cons, List.append_assoc, ← hnil, hcode, List.append_nil]
        | cons first back =>
            rw [List.cons_append, List.cons.injEq] at hafter
            rw [← hafter.1] at hcode
            exact ⟨[], d, rest, before, back, rfl, hcode, rfl, hafter.2⟩

/-- A mark among the codes of a text is the code of a mark of the text, so there is a backslash
    before it that belongs to it. -/
theorem mark_in_codes {value before after : List Char}
    (h : value.flatMap markCode = before ++ '"' :: after) :
    ∃ left right, value = left ++ '"' :: right ∧ before = left.flatMap markCode ++ ['\\'] := by
  rcases exists_of_flatMap_eq h with ⟨left, d, right, front, back, hvalue, hcode, hbefore, _⟩
  by_cases hquote : d = '"'
  · rw [hquote] at hvalue hcode
    refine ⟨left, right, hvalue, ?_⟩
    rw [hbefore]
    match front, hcode with
    | [], hcode => exact absurd (List.cons.inj hcode).1 (by decide)
    | [b], hcode => rw [(List.cons.inj hcode).1]
    | b :: e :: others, hcode => simp [markCode] at hcode
  · rw [markCode_of_ne hquote, List.singleton_eq_append_iff] at hcode
    simp [Ne.symm hquote] at hcode

/-- A value is well quoted exactly if its own backslashes escape nothing. -/
theorem wellQuoted_quotedValue_iff (value : String) :
    WellQuoted (quotedValue value) ↔ Quotable value.toList := by
  rw [quotedValue_eq]
  constructor
  · rintro ⟨inner, heq, hinner, hend⟩
    rw [← List.append_cancel_right (List.cons.inj heq).2] at hinner hend
    refine ⟨fun before after hvalue => ?_, fun h => hend ((escapedAfter_codes _).mpr h)⟩
    rw [hvalue] at hinner
    have hescaped := hinner _ _ (codes_append_mark before after)
    rwa [escapedAfter_concat_backslash, escapedAfter_codes] at hescaped
  · rintro ⟨hmarks, hend⟩
    refine ⟨_, rfl, fun before after hcodes => ?_, fun h => hend ((escapedAfter_codes _).mp h)⟩
    rcases mark_in_codes hcodes with ⟨left, right, hvalue, rfl⟩
    rw [escapedAfter_concat_backslash, escapedAfter_codes]
    exact hmarks left right hvalue

end Markdown

end PageDistill
