import PageDistill.Markdown.Escape

/-!
# Undoing the Escape

The text that an escaped text stands for.

Reading an escaped text back takes the three entities for their characters and a backslash
for the character behind it. Every code begins with a character that no other code begins
with, except for the entities, which differ in their second or third character; so the codes
of a text are found again one by one.

## Main definitions

* `unescape`: The text of an escaped text.

## Theorems

* `unescape_escape`: An escaped text read back is the text.
-/

namespace PageDistill

namespace Markdown

/-- The text of an escaped text: entities and backslashes are undone, and all else stays. -/
def unescape : List Char → List Char
  | [] => []
  | '&' :: 'a' :: 'm' :: 'p' :: ';' :: rest => '&' :: unescape rest
  | '&' :: 'l' :: 't' :: ';' :: rest => '<' :: unescape rest
  | '&' :: 'g' :: 't' :: ';' :: rest => '>' :: unescape rest
  | '\\' :: c :: rest => c :: unescape rest
  | c :: rest => c :: unescape rest

/-- A character that begins no code stands for itself. -/
theorem unescape_cons (c : Char) (rest : List Char) (hamp : c ≠ '&') (hback : c ≠ '\\') :
    unescape (c :: rest) = c :: unescape rest := by
  rw [unescape]
  · exact fun _ hc => absurd hc hamp
  · exact fun _ hc => absurd hc hamp
  · exact fun _ hc => absurd hc hamp
  · exact fun _ _ hc => absurd hc hback

/-- A code read back is its character. -/
theorem unescape_escapeCode (c : Char) (rest : List Char) :
    unescape (escapeCode c ++ rest) = c :: unescape rest := by
  rcases escapeCode_cases c with
    ⟨rfl, hcode⟩ | ⟨rfl, hcode⟩ | ⟨rfl, hcode⟩ | ⟨_, hcode⟩ | ⟨hmark, hamp, _, _, hcode⟩
  all_goals rw [hcode]
  · rfl
  · rfl
  · rfl
  · rfl
  · -- A backslash is markup itself, so it does not get here.
    refine unescape_cons c rest hamp fun hback => ?_
    rw [hback] at hmark
    exact absurd hmark (by decide)

/-- An escaped text read back is the text. -/
theorem unescape_escape (s : List Char) : unescape (escape s) = s := by
  induction s with
  | nil => rfl
  | cons c rest ih =>
      rw [escape, List.flatMap_cons, unescape_escapeCode]
      exact congrArg (c :: ·) ih

end Markdown

end PageDistill
