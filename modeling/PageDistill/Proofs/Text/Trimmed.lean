import Mathlib.Data.List.Basic
import PageDistill.Text.Blank

/-!
# Trimmed Texts

Texts without blank space at either end, and the operations that make them.

Trimming makes such a text. Joining makes one out of others, whatever stands between them, as
long as none of the parts is empty: the joined text begins like its first part and ends like
its last.

## Main definitions

* `Trimmed`, `TrimmedBy`: A text with no blank, or nothing of a class, at either end.
* `EndsFilled`: A text with a last character that is not blank.

## Theorems

* `trimmed_trim`: Trimming leaves a trimmed text.
* `trimmedBy_joinWith`, `trimmed_joinWith`: Parts that are trimmed and not empty make a trimmed
  text.
* `trimEndBy_append_of_all`, `trimEndBy_append_of_exists`: What goes from the end of two texts.
* `trim_of_trimmed`: Trimming leaves a trimmed text as it is.
* `EndsFilled.trimEndBy_eq`, `EndsFilled.trimEnd_append`: Nothing is trimmed from an end that is not
  blank.
* `trim_sublist_trim`: More text around or between what is there leaves it in the trimmed text.
-/

namespace PageDistill

namespace Text

/-- A text with no blank character at its front or at its end; the empty text is one. -/
def Trimmed (s : List Char) : Prop :=
  (∀ c ∈ s.head?, isBlank c = false) ∧ ∀ c ∈ s.getLast?, isBlank c = false

instance (s : List Char) : Decidable (Trimmed s) :=
  inferInstanceAs (Decidable ((∀ c ∈ s.head?, isBlank c = false) ∧ _))

/-- A text with no character of a class at its front or at its end; the empty text is one. -/
def TrimmedBy (p : Char → Bool) (s : List Char) : Prop :=
  (∀ c ∈ s.head?, p c = false) ∧ ∀ c ∈ s.getLast?, p c = false

theorem head?_dropWhile (p : Char → Bool) (s : List Char) :
    ∀ c ∈ (s.dropWhile p).head?, p c = false := by
  intro c hc
  have hhead := List.head?_dropWhile_not p s
  rw [Option.mem_def.mp hc] at hhead
  exact hhead

/-- What is left of a text after its end is trimmed. -/
theorem trimEndBy_prefix (p : Char → Bool) (s : List Char) : trimEndBy p s <+: s := by
  rw [trimEndBy, ← List.reverse_suffix, List.reverse_reverse]
  exact List.dropWhile_suffix p

theorem getLast?_trimEndBy (p : Char → Bool) (s : List Char) :
    ∀ c ∈ (trimEndBy p s).getLast?, p c = false := by
  rw [trimEndBy, List.getLast?_reverse]
  exact head?_dropWhile p s.reverse

/-- Trimming leaves a trimmed text. -/
theorem trimmed_trim (s : List Char) : Trimmed (trim s) := by
  refine ⟨fun c hc => ?_, fun c hc => ?_⟩
  · -- Trimming the end leaves a beginning of what was left of the front.
    rcases trimEndBy_prefix isBlank (s.dropWhile isBlank) with ⟨rest, hrest⟩
    refine head?_dropWhile isBlank s c ?_
    rw [← hrest, List.head?_append, ← trimBy, ← trim, Option.mem_def.mp hc]
    rfl
  · exact getLast?_trimEndBy isBlank _ c hc

/-- A text that is trimmed of more is trimmed of less. -/
theorem TrimmedBy.mono {p q : Char → Bool} {s : List Char} (h : TrimmedBy p s)
    (hq : ∀ c, q c = true → p c = true) : TrimmedBy q s := by
  have hnot : ∀ c, p c = false → q c = false := fun c hc =>
    Bool.eq_false_iff.mpr fun htrue => Bool.eq_false_iff.mp hc (hq c htrue)
  exact ⟨fun c hc => hnot c (h.1 c hc), fun c hc => hnot c (h.2 c hc)⟩

/-- A text is trimmed if it begins and ends with texts that are. -/
theorem TrimmedBy.append {p : Char → Bool} {s t : List Char} (hs : TrimmedBy p s)
    (ht : TrimmedBy p t) (between : List Char) (hne : s ≠ []) (hne' : t ≠ []) :
    TrimmedBy p (s ++ between ++ t) := by
  refine ⟨?_, ?_⟩
  · rw [List.append_assoc, List.head?_append_of_ne_nil _ hne]
    exact hs.1
  · rw [List.getLast?_append_of_ne_nil _ hne']
    exact ht.2

/-- Parts that are trimmed and not empty make a trimmed text, which is not empty either if there
    is a part. -/
theorem trimmedBy_joinWith (p : Char → Bool) (sep : List Char) (pieces : List (List Char))
    (h : ∀ piece ∈ pieces, piece ≠ [] ∧ TrimmedBy p piece) :
    TrimmedBy p (joinWith sep pieces) ∧ (pieces ≠ [] → joinWith sep pieces ≠ []) := by
  induction pieces with
  | nil => exact ⟨⟨nofun, nofun⟩, fun hne => absurd rfl hne⟩
  | cons piece pieces ih =>
      rcases h piece List.mem_cons_self with ⟨hne, hpiece⟩
      cases pieces with
      | nil => exact ⟨hpiece, fun _ => hne⟩
      | cons next others =>
          rcases ih fun other hmem => h other (List.mem_cons_of_mem piece hmem) with
            ⟨hrest, hrestne⟩
          rw [joinWith_cons_cons]
          exact ⟨hpiece.append hrest sep hne (hrestne (List.cons_ne_nil _ _)),
            fun _ => by simp [hne]⟩

theorem trimmed_joinWith (sep : List Char) (pieces : List (List Char))
    (h : ∀ piece ∈ pieces, piece ≠ [] ∧ Trimmed piece) :
    Trimmed (joinWith sep pieces) ∧ (pieces ≠ [] → joinWith sep pieces ≠ []) :=
  trimmedBy_joinWith isBlank sep pieces h

/-- Nothing is trimmed from an end that is not of the class. -/
theorem trimEndBy_eq_self {p : Char → Bool} {s : List Char} (h : ∀ c ∈ s.getLast?, p c = false) :
    trimEndBy p s = s := by
  rw [trimEndBy, ← List.reverse_inj, List.reverse_reverse]
  cases hback : s.reverse with
  | nil => rfl
  | cons c rest =>
      refine List.dropWhile_cons_of_neg (Bool.eq_false_iff.mp (h c ?_))
      rw [List.getLast?_eq_head?_reverse, hback]
      rfl

/-- At the end of a longer text all of the class goes, and then more may go. -/
theorem trimEndBy_append_of_all {p : Char → Bool} (s : List Char) {t : List Char}
    (h : ∀ c ∈ t, p c = true) : trimEndBy p (s ++ t) = trimEndBy p s := by
  have hnil : t.reverse.dropWhile p = [] :=
    (dropWhile_eq_nil_iff p _).mpr fun c hc => h c (List.mem_reverse.mp hc)
  rw [trimEndBy, trimEndBy, List.reverse_append, List.dropWhile_append, hnil]
  rfl

/-- What is not all of the class protects what stands before it. -/
theorem trimEndBy_append_of_exists {p : Char → Bool} (s : List Char) {t : List Char}
    (h : ∃ c ∈ t, p c = false) : trimEndBy p (s ++ t) = s ++ trimEndBy p t := by
  have hne : t.reverse.dropWhile p ≠ [] := by
    intro hnil
    rcases h with ⟨c, hc, hfalse⟩
    have htrue := (dropWhile_eq_nil_iff p _).mp hnil c (List.mem_reverse.mpr hc)
    rw [hfalse] at htrue
    exact absurd htrue Bool.false_ne_true
  rw [trimEndBy, trimEndBy, List.reverse_append, List.dropWhile_append,
    if_neg (by rwa [List.isEmpty_iff]), List.reverse_append, List.reverse_reverse]

/-- What is dropped from a longer text for being of the class is not in the rest of a shorter
    one. -/
theorem dropWhile_sublist_dropWhile (p : Char → Bool) {s t : List Char} (h : s.Sublist t) :
    (s.dropWhile p).Sublist (t.dropWhile p) := by
  induction h with
  | slnil => exact List.Sublist.refl _
  -- A character that only the longer text has may end its blank beginning early.
  | @cons s t c h ih =>
      rw [List.dropWhile_cons]
      by_cases hc : p c = true
      · rw [if_pos hc]
        exact ih
      · rw [if_neg hc]
        exact ((List.dropWhile_sublist p).trans h).cons c
  | @cons_cons s t c h ih =>
      rw [List.dropWhile_cons, List.dropWhile_cons]
      by_cases hc : p c = true
      · rw [if_pos hc, if_pos hc]
        exact ih
      · rw [if_neg hc, if_neg hc]
        exact h.cons_cons c

/-- Trimming keeps the order between texts: if one is the other with some characters left out, so
    it is after trimming. -/
theorem trim_sublist_trim {s t : List Char} (h : s.Sublist t) : (trim s).Sublist (trim t) := by
  unfold trim trimBy trimEndBy
  have hfront := (dropWhile_sublist_dropWhile isBlank h).reverse
  exact (dropWhile_sublist_dropWhile isBlank hfront).reverse

/-- A text with a last character, and this is not blank. -/
def EndsFilled (s : List Char) : Prop := ∃ front c, s = front ++ [c] ∧ isBlank c = false

namespace EndsFilled

variable {s : List Char}

theorem ne_nil (h : EndsFilled s) : s ≠ [] := by
  rcases h with ⟨front, c, rfl, _⟩
  simp

theorem append_left (h : EndsFilled s) (front : List Char) : EndsFilled (front ++ s) := by
  rcases h with ⟨middle, c, rfl, hc⟩
  exact ⟨front ++ middle, c, (List.append_assoc _ _ _).symm, hc⟩

theorem cons (h : EndsFilled s) (c : Char) : EndsFilled (c :: s) := h.append_left [c]

/-- Nothing is trimmed from an end that is not blank. -/
theorem trimEndBy_eq (h : EndsFilled s) (p : Char → Bool)
    (hp : ∀ c, p c = true → isBlank c = true) : trimEndBy p s = s := by
  rcases h with ⟨front, c, rfl, hc⟩
  refine trimEndBy_eq_self fun last hlast => ?_
  rw [List.getLast?_append_of_ne_nil _ (List.cons_ne_nil _ _)] at hlast
  rw [← Option.some.inj hlast, Bool.eq_false_iff]
  intro htrue
  rw [hp c htrue] at hc
  exact absurd hc (by decide)

/-- Blank behind a text with a filled end is trimmed by itself. -/
theorem trimEnd_append (h : EndsFilled s) (t : List Char) :
    trimEnd (s ++ t) = s ++ trimEnd t := by
  by_cases hall : ∀ c ∈ t, isBlank c = true
  · have hnil : trimEnd t = [] := (trimEndBy_eq_nil_iff isBlank t).mpr hall
    rw [hnil, List.append_nil, trimEnd, trimEndBy_append_of_all s hall]
    exact h.trimEndBy_eq isBlank fun _ hc => hc
  · push Not at hall
    exact trimEndBy_append_of_exists s (by simpa using hall)

/-- The last of some joined texts is at the end. -/
theorem joinWith (sep : List Char) {pieces : List (List Char)} (hne : pieces ≠ [])
    (h : ∀ piece ∈ pieces, EndsFilled piece) : EndsFilled (joinWith sep pieces) := by
  induction pieces with
  | nil => exact absurd rfl hne
  | cons piece pieces ih =>
      cases pieces with
      | nil => exact h piece List.mem_cons_self
      | cons next others =>
          rw [joinWith_cons_cons]
          exact (ih (List.cons_ne_nil _ _) fun other hmem =>
            h other (List.mem_cons_of_mem piece hmem)).append_left _

end EndsFilled

/-- A digit is not blank. -/
theorem isBlank_of_isDigit {c : Char} (h : c.isDigit = true) : isBlank c = false := by
  rw [Char.isDigit, Bool.and_eq_true, decide_eq_true_eq, decide_eq_true_eq] at h
  have hlow : 48 ≤ c.toNat := h.1
  have hhigh : c.toNat ≤ 57 := h.2
  rw [Bool.eq_false_iff]
  intro hblank
  simp only [isBlank, Bool.or_eq_true, Bool.and_eq_true, decide_eq_true_eq, beq_iff_eq] at hblank
  omega

theorem endsFilled_of_trimmed {s : List Char} (hne : s ≠ []) (h : Trimmed s) : EndsFilled s := by
  refine ⟨s.dropLast, s.getLast hne, (List.dropLast_append_getLast hne).symm, ?_⟩
  exact h.2 _ (List.getLast?_eq_some_getLast hne)

/-- A text that does not begin with blank loses nothing at its front. -/
theorem trim_eq_trimEnd {s : List Char} (h : ∀ c ∈ s.head?, isBlank c = false) :
    trim s = trimEnd s := by
  rw [trim, trimBy, trimEnd]
  cases s with
  | nil => rfl
  | cons c rest =>
      rw [List.dropWhile_cons_of_neg]
      rw [h c rfl]
      exact Bool.false_ne_true

/-- Trimming leaves a trimmed text as it is. -/
theorem trim_of_trimmed {s : List Char} (h : Trimmed s) : trim s = s := by
  by_cases hne : s = []
  · rw [hne]
    rfl
  · rw [trim_eq_trimEnd h.1]
    exact (endsFilled_of_trimmed hne h).trimEndBy_eq isBlank fun _ hc => hc

theorem trimmed_iff {s : List Char} : Trimmed s ↔ trim s = s := by
  refine ⟨trim_of_trimmed, fun h => ?_⟩
  rw [← h]
  exact trimmed_trim s

end Text

end PageDistill
