import PageDistill.Proofs.Markdown.Delimiters
import PageDistill.Proofs.Markdown.Unescape

/-!
# The Escape in Passes

Escaping a text character by character, and the same in passes over the whole text.

The rule for escaping is told in passes: a text that is all blank stays as it is; in any other one
the ampersands become entities, then the angle brackets, and then a backslash is put before each
character that Markdown reads as markup. A later pass goes over what an earlier one has written. It
changes nothing there, since an entity holds no angle bracket and no markup, and a character that
the first passes leave alone is met by the last one as it stands in the text. So each character has
one code, and the passes are the concatenation of the codes (`escapeInPasses_eq`). Blank characters
are their own codes, so a blank text needs no rule of its own.

What stands in an escaped text is read off the code in which it stands. A character of an escaped
text belongs to the code of one character, with codes before and behind it
(`exists_of_flatMap_eq`). Codes end with an even number of backslashes or with the character that
the last of them escapes, so the number of backslashes before a code is even, and the backslash in
the code makes it odd.

## Main definitions

* `replaceEach`, `backslashEach`: A pass over a text.
* `escapeInPasses`: The passes one after the other.
* `entities`: The entities that escaping writes.

## Theorems

* `escapeInPasses_eq`: The passes write one code for each character.
* `escapeCode_kinds`: A code is an entity, a backslash before markup, or a plain character.
* `escapedAfter_of_escape`: Markup in an escaped text is escaped.
* `entity_of_escape`: An ampersand in an escaped text begins an entity.
* `escapeText_codes`: The escaped form of a text is an invertible concatenation of codes.
-/

namespace PageDistill

namespace Markdown

/-- The text with every occurrence of a character replaced. -/
def replaceEach (c : Char) (code s : List Char) : List Char :=
  s.flatMap fun d => if d = c then code else [d]

/-- The text with a backslash before every character that Markdown reads as markup. -/
def backslashEach (s : List Char) : List Char :=
  s.flatMap fun c => if isMarkupChar c then ['\\', c] else [c]

/-- The entities that escaping writes. -/
def entities : List String := ["&amp;", "&lt;", "&gt;"]

/-- The text escaped in passes over the whole of it. A text that is all blank is left alone. -/
def escapeInPasses (s : List Char) : List Char :=
  if Text.isAllBlank s then s
  else
    backslashEach (replaceEach '>' "&gt;".toList
      (replaceEach '<' "&lt;".toList (replaceEach '&' "&amp;".toList s)))

/-- Markup is not blank, so a blank character is its own code. -/
theorem isBlank_of_isMarkupChar {c : Char} (h : isMarkupChar c = true) :
    Text.isBlank c = false := by
  have hmarks : ∀ d ∈ "\\*_\x7b\x7d[]#+!|".toList, (!Text.isBlank d) = true :=
    List.all_eq_true.mp (by decide)
  rw [isMarkupChar, Bool.or_eq_true, beq_iff_eq, List.contains_iff_mem] at h
  rcases h with rfl | h
  · decide
  · exact (Bool.not_eq_true' _).mp (hmarks c h)

theorem escapeCode_of_isBlank {c : Char} (h : Text.isBlank c = true) : escapeCode c = [c] := by
  rcases escapeCode_cases c with
    ⟨rfl, _⟩ | ⟨rfl, _⟩ | ⟨rfl, _⟩ | ⟨hmark, _⟩ | ⟨_, _, _, _, hcode⟩
  · exact absurd h (by decide)
  · exact absurd h (by decide)
  · exact absurd h (by decide)
  · rw [isBlank_of_isMarkupChar hmark] at h
    exact absurd h Bool.noConfusion
  · exact hcode

theorem flatMap_escapeCode_of_blank {s : List Char} (h : Text.isAllBlank s = true) :
    s.flatMap escapeCode = s := by
  rw [Text.isAllBlank, List.all_eq_true] at h
  induction s with
  | nil => rfl
  | cons c rest ih =>
      rw [List.flatMap_cons, escapeCode_of_isBlank (h c List.mem_cons_self),
        ih fun d hd => h d (List.mem_cons_of_mem c hd), List.singleton_append]

/-- The passes over one character write its code. -/
theorem passes_singleton (c : Char) :
    backslashEach (replaceEach '>' "&gt;".toList
      (replaceEach '<' "&lt;".toList (replaceEach '&' "&amp;".toList [c]))) = escapeCode c := by
  by_cases hamp : c = '&'
  · rw [hamp]
    decide
  · by_cases hlt : c = '<'
    · rw [hlt]
      decide
    · by_cases hgt : c = '>'
      · rw [hgt]
        decide
      · simp [replaceEach, backslashEach, escapeCode, hamp, hlt, hgt]

/-- The passes write one code for each character. -/
theorem escapeInPasses_eq (s : List Char) : escapeInPasses s = s.flatMap escapeCode := by
  have hpasses : ∀ s, backslashEach (replaceEach '>' "&gt;".toList
      (replaceEach '<' "&lt;".toList (replaceEach '&' "&amp;".toList s))) =
        s.flatMap escapeCode := by
    intro s
    induction s with
    | nil => rfl
    | cons c rest ih =>
        -- Each pass works on every character by itself, so the passes do as well.
        have hfirst := passes_singleton c
        simp only [replaceEach, backslashEach, List.flatMap_cons, List.flatMap_nil,
          List.append_nil, List.flatMap_append] at ih hfirst ⊢
        rw [ih, hfirst]
  unfold escapeInPasses
  by_cases hblank : Text.isAllBlank s = true
  · rw [if_pos hblank]
    exact (flatMap_escapeCode_of_blank hblank).symm
  · rw [if_neg hblank]
    exact hpasses s

/-- A code is an entity, a backslash before markup, or a character that is neither. -/
theorem escapeCode_kinds (c : Char) :
    (∃ entity ∈ entities, escapeCode c = entity.toList) ∨
      (isMarkupChar c = true ∧ escapeCode c = ['\\', c]) ∨
      (isMarkupChar c = false ∧ c ≠ '&' ∧ escapeCode c = [c]) := by
  rcases escapeCode_cases c with
    ⟨_, heq⟩ | ⟨_, heq⟩ | ⟨_, heq⟩ | hmark | ⟨hplain, hamp, _, _, heq⟩
  · exact Or.inl ⟨"&amp;", by decide, heq⟩
  · exact Or.inl ⟨"&lt;", by decide, heq⟩
  · exact Or.inl ⟨"&gt;", by decide, heq⟩
  · exact Or.inr (Or.inl hmark)
  · exact Or.inr (Or.inr ⟨hplain, hamp, heq⟩)

/-- An entity holds no markup, and an ampersand at its beginning only. -/
theorem not_isMarkupChar_of_mem_entity {entity : String} (h : entity ∈ entities) :
    ∀ c ∈ entity.toList, (!isMarkupChar c) = true := by
  have hall : ∀ entity ∈ entities, entity.toList.all (fun c => !isMarkupChar c) = true := by decide
  exact List.all_eq_true.mp (hall entity h)

theorem ampersand_not_mem_entity_tail : ∀ entity ∈ entities, '&' ∉ entity.toList.tail := by
  decide

/-- Behind whole codes nothing is escaped. -/
theorem not_escapedAfter_escape (s : List Char) : ¬EscapedAfter (escape s) := by
  have heven : runAfter 0 (escape s) % 2 = 0 := runAfter_escape s rfl
  unfold EscapedAfter
  rw [← runAfter_zero]
  omega

/-- Markup stands in its own code only, and there behind the backslash. -/
theorem front_of_markup {c d : Char} {front back : List Char}
    (hcode : escapeCode d = front ++ c :: back) (hmark : isMarkupChar c = true)
    (hback : c ≠ '\\') : front = ['\\'] := by
  have hmem : c ∈ escapeCode d := by
    rw [hcode]
    exact List.mem_append_right front List.mem_cons_self
  have hplain : isMarkupChar c ≠ false := by
    rw [hmark]
    exact Bool.noConfusion
  rcases escapeCode_kinds d with ⟨entity, hentity, heq⟩ | ⟨_, heq⟩ | ⟨hd, _, heq⟩
  · rw [heq] at hmem
    exact absurd ((Bool.not_eq_true' _).mp (not_isMarkupChar_of_mem_entity hentity c hmem)) hplain
  · rw [heq] at hcode
    -- The code is a backslash and one character, so there is only one place for the markup.
    match front, hcode with
    | [], hcode => exact absurd (List.cons.inj hcode).1.symm hback
    | [e], hcode => rw [(List.cons.inj hcode).1]
    | e :: f :: others, hcode => simp at hcode
  · rw [heq] at hmem
    rw [← List.mem_singleton.mp hmem] at hd
    exact absurd hd hplain

/-- Markup in an escaped text, other than a backslash, is escaped. -/
theorem escapedAfter_of_escape {s before after : List Char} {c : Char}
    (h : escape s = before ++ c :: after) (hmark : isMarkupChar c = true) (hback : c ≠ '\\') :
    EscapedAfter before := by
  rcases exists_of_flatMap_eq h with ⟨left, d, right, front, back, _, hcode, rfl, _⟩
  rw [front_of_markup hcode hmark hback, escapedAfter_concat_backslash]
  exact not_escapedAfter_escape left

/-- An ampersand stands in entities only, and there it is the first character. -/
theorem entity_of_ampersand {d : Char} {front back : List Char}
    (hcode : escapeCode d = front ++ '&' :: back) :
    ∃ entity ∈ entities, entity.toList = '&' :: back := by
  have hmem : '&' ∈ escapeCode d := by
    rw [hcode]
    exact List.mem_append_right front List.mem_cons_self
  rcases escapeCode_kinds d with ⟨entity, hentity, heq⟩ | ⟨hmark, heq⟩ | ⟨_, hamp, heq⟩
  · refine ⟨entity, hentity, ?_⟩
    rw [heq] at hcode
    cases front with
    | nil => exact hcode
    | cons e others =>
        -- An entity has its only ampersand at the front.
        refine absurd ?_ (ampersand_not_mem_entity_tail entity hentity)
        rw [hcode]
        exact List.mem_append_right others List.mem_cons_self
  · rw [heq, List.mem_cons, List.mem_singleton] at hmem
    rcases hmem with hmem | rfl
    · exact absurd hmem (by decide)
    · exact absurd hmark (by decide)
  · rw [heq, List.mem_singleton] at hmem
    exact absurd hmem.symm hamp

/-- An ampersand in an escaped text begins an entity. -/
theorem entity_of_escape {s before after : List Char} (h : escape s = before ++ '&' :: after) :
    ∃ entity ∈ entities, entity.toList <+: '&' :: after := by
  rcases exists_of_flatMap_eq h with ⟨left, d, right, front, back, _, hcode, _, rfl⟩
  rcases entity_of_ampersand hcode with ⟨entity, hentity, heq⟩
  refine ⟨entity, hentity, ?_⟩
  rw [heq, ← List.cons_append]
  exact List.prefix_append _ _

/-- Escaping a text is an invertible code. The passes over the whole text write one code for each
    character, so that escaping commutes with concatenation; the text is read back from what is
    written, so no two texts are written the same way; and in what is written, markup is escaped,
    no angle bracket is left, and every ampersand begins an entity. -/
theorem escapeText_codes (t : String) :
    (escapeText t).toList = escapeInPasses t.toList ∧
      (escapeText t).toList = t.toList.flatMap escapeCode ∧
      (∀ u, escapeText (t ++ u) = escapeText t ++ escapeText u) ∧
      unescape (escapeText t).toList = t.toList ∧
      (∀ u, escapeText t = escapeText u ↔ t = u) ∧
      (∀ c ∈ graveAccent :: "*_\x7b\x7d[]#+!|".toList, ∀ before after,
        (escapeText t).toList = before ++ c :: after → EscapedAfter before) ∧
      '<' ∉ (escapeText t).toList ∧ '>' ∉ (escapeText t).toList ∧
      ∀ before after, (escapeText t).toList = before ++ '&' :: after →
        ∃ entity ∈ entities, entity.toList <+: '&' :: after := by
  have hmarks : ∀ c ∈ graveAccent :: "*_\x7b\x7d[]#+!|".toList,
      (isMarkupChar c && c != '\\') = true := List.all_eq_true.mp (by decide)
  have htext : ∀ u, (escapeText u).toList = escape u.toList := fun u => String.toList_ofList
  rw [htext]
  refine ⟨(escapeInPasses_eq _).symm, rfl, fun u => ?_, unescape_escape _,
    fun u => ⟨fun h => ?_, ?_⟩, ?_, angle_not_mem_escape (Or.inl rfl) _,
    angle_not_mem_escape (Or.inr rfl) _, fun _ _ h => entity_of_escape h⟩
  · rw [escapeText, String.toList_append, escape_append, String.ofList_append]
    rfl
  · rw [← String.toList_inj, ← unescape_escape t.toList, ← htext, h, htext, unescape_escape]
  · rintro rfl
    rfl
  · intro c hc before after h
    rcases Bool.and_eq_true_iff.mp (hmarks c hc) with ⟨hmark, hback⟩
    exact escapedAfter_of_escape h hmark (bne_iff_ne.mp hback)

-- An entity of the text is text, and stays text.
example : escapeInPasses "&lt;a_b> \\".toList = "&amp;lt;a\\_b&gt; \\\\".toList := by decide

end Markdown

end PageDistill
