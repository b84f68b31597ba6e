import PageDistill.Text.Blank

/-!
# What a Reader Sees of a Text

The characters of a text that are not blank.

Lowering and rendering move blank space about: they trim texts, drop line ends, put
spaces between pieces and cut texts into lines. None of this is a loss, since blank space
in a page means nothing beyond parting words. `visible` is the view that forgets it, and
each operation on blank space is an equation about this view. Whatever else an operation
does then shows.

## Main definitions

* `visible`: The characters that are not blank, in order.

## Theorems

* `visible_append`: What is seen of two texts in a row.
* `visible_eq_nil_iff`: Nothing is seen exactly of a blank text.
* `visible_trimEndBy`, `visible_trim`, `visible_trimEnd`: Trimming is not seen.
* `mem_dropWhile_of_filled`, `mem_trimEnd_of_filled`: What is seen is not trimmed.
* `visible_joinWith`: A blank separator is not seen.
* `visible_splitOn`: A cut at a blank character is not seen.
* `visible_sublist`: What is seen of a text is a part of it.
-/

namespace PageDistill

namespace Text

/-- The characters of a text that are not blank, in order. -/
def visible (s : List Char) : List Char := s.filter fun c => !isBlank c

@[simp] theorem visible_nil : visible [] = [] := rfl

@[simp] theorem visible_append (a b : List Char) : visible (a ++ b) = visible a ++ visible b :=
  List.filter_append a b

theorem visible_flatMap {α : Type} (f : α → List Char) (l : List α) :
    visible (l.flatMap f) = l.flatMap fun a => visible (f a) := List.filter_flatMap

theorem visible_flatten (l : List (List Char)) : visible l.flatten = l.flatMap visible := by
  rw [← List.flatMap_id, visible_flatMap]
  rfl

theorem visible_cons_of_blank (c : Char) (s : List Char) (h : isBlank c = true) :
    visible (c :: s) = visible s := by
  rw [visible, visible, List.filter_cons, h]
  rfl

@[simp] theorem visible_space (s : List Char) : visible (' ' :: s) = visible s :=
  visible_cons_of_blank ' ' s (by decide)

@[simp] theorem visible_lineEnd (s : List Char) : visible ('\n' :: s) = visible s :=
  visible_cons_of_blank '\n' s (by decide)

/-- Nothing is seen exactly of a blank text. -/
theorem visible_eq_nil_iff (s : List Char) : visible s = [] ↔ isAllBlank s = true := by
  rw [visible, List.filter_eq_nil_iff, isAllBlank, List.all_eq_true]
  simp

/-- Trimming leaves nothing of blank text, and of no other. -/
theorem isEmpty_trim (s : List Char) : (trim s).isEmpty = isAllBlank s := by
  rw [Bool.eq_iff_iff, List.isEmpty_iff, trim_eq_nil_iff]

theorem visible_ne_nil_iff (s : List Char) : visible s ≠ [] ↔ isAllBlank s = false := by
  rw [Ne, visible_eq_nil_iff, Bool.not_eq_true]

/-- Texts of which the same is seen are blank together. -/
theorem isAllBlank_congr {s t : List Char} (h : visible s = visible t) :
    isAllBlank s = isAllBlank t := by
  rw [Bool.eq_iff_iff, ← visible_eq_nil_iff, ← visible_eq_nil_iff, h]

/-- Dropping blanks from the front drops nothing that shows. -/
theorem visible_dropWhile (p : Char → Bool) (hp : ∀ c, p c = true → isBlank c = true)
    (s : List Char) : visible (s.dropWhile p) = visible s := by
  induction s with
  | nil => rfl
  | cons c rest ih =>
      by_cases hc : p c = true
      · rw [List.dropWhile_cons, if_pos hc, ih, visible_cons_of_blank c rest (hp c hc)]
      · rw [List.dropWhile_cons, if_neg hc]

/-- Trimming blank characters of some class from the end is not seen. -/
theorem visible_trimEndBy (p : Char → Bool) (hp : ∀ c, p c = true → isBlank c = true)
    (s : List Char) : visible (trimEndBy p s) = visible s := by
  have hrev : ∀ t : List Char, visible t.reverse = (visible t).reverse := fun t => by
    rw [visible, visible, List.filter_reverse]
  rw [trimEndBy, hrev, visible_dropWhile p hp, hrev, List.reverse_reverse]

/-- Trimming is not seen. -/
@[simp] theorem visible_trim (s : List Char) : visible (trim s) = visible s := by
  rw [trim, trimBy, visible_trimEndBy isBlank (fun _ h => h),
    visible_dropWhile isBlank fun _ h => h]

@[simp] theorem visible_trimEnd (s : List Char) : visible (trimEnd s) = visible s :=
  visible_trimEndBy isBlank (fun _ h => h) s

theorem mem_visible {c : Char} {s : List Char} : c ∈ visible s ↔ c ∈ s ∧ isBlank c = false := by
  rw [visible, List.mem_filter, Bool.not_eq_true']

/-- One character that is not blank is enough to be seen. -/
theorem visible_ne_nil {s : List Char} (c : Char) (hmem : c ∈ s) (hc : isBlank c = false) :
    visible s ≠ [] :=
  List.ne_nil_of_mem (mem_visible.mpr ⟨hmem, hc⟩)

/-- A character that is not blank is not dropped from the front. -/
theorem mem_dropWhile_of_filled {c : Char} {s : List Char} (hc : isBlank c = false) (h : c ∈ s) :
    c ∈ s.dropWhile isBlank := by
  have hmem := mem_visible.mpr ⟨h, hc⟩
  rw [← visible_dropWhile isBlank (fun _ h => h)] at hmem
  exact (mem_visible.mp hmem).1

/-- Nor is it trimmed from the end. -/
theorem mem_trimEnd_of_filled {c : Char} {s : List Char} (hc : isBlank c = false) (h : c ∈ s) :
    c ∈ trimEnd s := by
  have hmem := mem_visible.mpr ⟨h, hc⟩
  rw [← visible_trimEnd] at hmem
  exact (mem_visible.mp hmem).1

/-- A blank separator is not seen. -/
theorem visible_joinWith (sep : List Char) (hsep : visible sep = []) (pieces : List (List Char)) :
    visible (joinWith sep pieces) = pieces.flatMap visible := by
  induction pieces with
  | nil => rfl
  | cons piece pieces ih =>
      cases pieces with
      | nil => simp [joinWith]
      | cons next others =>
          rw [joinWith_cons_cons, visible_append, visible_append, hsep, List.append_nil, ih]
          rfl

/-- A cut at a blank character is not seen. -/
theorem visible_splitOn (sep : Char) (hsep : isBlank sep = true) (s : List Char) :
    (splitOn sep s).flatMap visible = visible s := by
  rw [← visible_joinWith [sep] (visible_cons_of_blank sep [] hsep), joinWith_splitOn]

/-- What is seen of a text is a part of it. -/
theorem visible_sublist (s : List Char) : (visible s).Sublist s := List.filter_sublist

end Text

end PageDistill
