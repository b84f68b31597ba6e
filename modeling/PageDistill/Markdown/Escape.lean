import PageDistill.Text.Blank

/-!
# Escaping Text for Markdown

Text of a page becomes Markdown text by a code for each character: the three
characters that HTML reads as markup become entities, the characters that
Markdown reads as markup get a backslash, and all others stay.

No code holds a character that another code would change, so the order in which
the codes are applied does not matter, and blank text is its own escaped form.

## Main definitions

* `isMarkupChar`: The characters that Markdown reads as markup.
* `escapeCode`: The code of a character.
* `escape`, `escapeText`: The escaped form of a text.

## Theorems

* `escape_append`: Escaping commutes with concatenation.
* `escapeCode_cases`: The codes.
* `angle_not_mem_escape`: Escaped text holds no angle bracket.
-/

namespace PageDistill

namespace Markdown

/-- The grave accent, which delimits code. -/
def graveAccent : Char := Char.ofNat 0x60

/-- The characters that Markdown reads as markup. -/
def isMarkupChar (c : Char) : Bool :=
  c == graveAccent || "\\*_\x7b\x7d[]#+!|".toList.contains c

/-- The code of a character: an entity, a backslash before the character, or the
    character itself. -/
def escapeCode (c : Char) : List Char :=
  if c = '&' then "&amp;".toList
  else if c = '<' then "&lt;".toList
  else if c = '>' then "&gt;".toList
  else if isMarkupChar c then ['\\', c]
  else [c]

/-- The text with every character replaced by its code. -/
def escape (s : List Char) : List Char := s.flatMap escapeCode

/-- The escaped form of a text. -/
def escapeText (s : String) : String := String.ofList (escape s.toList)

theorem escape_append (a b : List Char) : escape (a ++ b) = escape a ++ escape b :=
  List.flatMap_append

/-- The codes: three entities, a backslash before markup, and the character itself. -/
theorem escapeCode_cases (c : Char) :
    (c = '&' ∧ escapeCode c = "&amp;".toList) ∨ (c = '<' ∧ escapeCode c = "&lt;".toList) ∨
      (c = '>' ∧ escapeCode c = "&gt;".toList) ∨
      (isMarkupChar c = true ∧ escapeCode c = ['\\', c]) ∨
      (isMarkupChar c = false ∧ c ≠ '&' ∧ c ≠ '<' ∧ c ≠ '>' ∧ escapeCode c = [c]) := by
  unfold escapeCode
  by_cases hamp : c = '&'
  · exact Or.inl ⟨hamp, if_pos hamp⟩
  · by_cases hlt : c = '<'
    · exact Or.inr (Or.inl ⟨hlt, by rw [if_neg hamp, if_pos hlt]⟩)
    · rw [if_neg hamp, if_neg hlt]
      by_cases hgt : c = '>'
      · exact Or.inr (Or.inr (Or.inl ⟨hgt, if_pos hgt⟩))
      · rw [if_neg hgt]
        refine Or.inr (Or.inr (Or.inr ?_))
        by_cases hmark : isMarkupChar c = true
        · exact Or.inl ⟨hmark, if_pos hmark⟩
        · exact Or.inr ⟨Bool.not_eq_true _ ▸ hmark, hamp, hlt, hgt, if_neg hmark⟩

/-- No code is empty. -/
theorem escapeCode_ne_nil (c : Char) : escapeCode c ≠ [] := by
  rcases escapeCode_cases c with ⟨_, h⟩ | ⟨_, h⟩ | ⟨_, h⟩ | ⟨_, h⟩ | ⟨_, _, _, _, h⟩
  all_goals
    rw [h]
    exact List.cons_ne_nil _ _

/-- No angle bracket stands in an escaped text. -/
theorem angle_not_mem_escape {c : Char} (h : c = '<' ∨ c = '>') (s : List Char) : c ∉ escape s := by
  intro hmem
  rcases List.mem_flatMap.mp hmem with ⟨d, _, hc⟩
  rcases escapeCode_cases d with
    ⟨_, hcode⟩ | ⟨_, hcode⟩ | ⟨_, hcode⟩ | ⟨hmark, hcode⟩ | ⟨_, _, hlt, hgt, hcode⟩
  -- A bracket in the text would have to stand in the code of some character.
  all_goals rw [hcode] at hc
  · rcases h with rfl | rfl <;> exact absurd hc (by decide)
  · rcases h with rfl | rfl <;> exact absurd hc (by decide)
  · rcases h with rfl | rfl <;> exact absurd hc (by decide)
  · -- An angle bracket is neither a backslash nor other markup.
    rcases List.mem_cons.mp hc with hc | hc
    · rcases h with rfl | rfl <;> exact absurd hc (by decide)
    · rw [← List.mem_singleton.mp hc] at hmark
      rcases h with rfl | rfl <;> exact absurd hmark (by decide)
  · rw [List.mem_singleton] at hc
    rcases h with rfl | rfl
    · exact hlt hc.symm
    · exact hgt hc.symm

end Markdown

end PageDistill
