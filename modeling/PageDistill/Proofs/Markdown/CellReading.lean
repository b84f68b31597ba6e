import PageDistill.Proofs.Markdown.Delimiters
import PageDistill.Proofs.Markdown.Unescape

/-!
# Reading a Cell Back

What a cell of escaped text says, read off the piece that is written for it.

A piece holds the content of a cell and after it a comment for each of its marks. Both are texts,
so it has to be clear where the first ends and what each comment is about. The content ends where
the first comment begins: escaped text has no `<` at all, which is the second character of what a
comment begins with, so neither the content nor its end can be taken for the beginning of a comment.
A comment ends at its `>`, which no mark holds. The two spans are told by their labels, and what
has no label is the column; so a column must not begin with a label (`CellMarks.Readable`).

## Main definitions

* `cutAtComment`: A text up to the first comment, and the rest of it.
* `commentTexts`: What the comments of a text say.
* `readMarks`: The marks that comments tell.
* `CellMarks.texts`: What the comments of a cell say.
* `CellMarks.Readable`: Marks that their comments tell apart.

## Theorems

* `cutAtComment_append`: Content without `<` is cut off as a whole.
* `commentTexts_flatMap`: Comments are taken apart again.
* `readMarks_annotations`: The comments of a cell tell its marks.
* `read_escaped`: A cell of escaped text is read back.
-/

namespace PageDistill

namespace Markdown

/-- What a comment begins with, and the space before it. -/
def commentStart : List Char := " <!--".toList

/-- A text up to the first comment, and the rest of it. -/
def cutAtComment : List Char → List Char × List Char
  | [] => ([], [])
  | c :: rest =>
    if commentStart.isPrefixOf (c :: rest) then ([], c :: rest)
    else (c :: (cutAtComment rest).1, (cutAtComment rest).2)

/-- What the comments of a text say. All of them end in the same character. -/
def commentTexts (s : List Char) : List (List Char) :=
  (Text.splitOn '>' s).dropLast.map fun comment =>
    (comment.drop " <!-- ".length).take (comment.length - " <!--  --".length)

/-- The marks with one more, as a comment tells it: a span behind its label, or a column. -/
def readMark (marks : CellMarks) (text : List Char) : CellMarks :=
  match text.dropPrefix? "colspan: ".toList with
  | some digits => { marks with colspan := some (Nat.ofDigitChars 10 digits 0) }
  | none =>
    match text.dropPrefix? "rowspan: ".toList with
    | some digits => { marks with rowspan := some (Nat.ofDigitChars 10 digits 0) }
    | none => { marks with colId := some (String.ofList text) }

/-- The marks that comments tell. -/
def readMarks (notes : List Char) : CellMarks :=
  (commentTexts notes).foldl readMark CellMarks.none

/-- What the comments of a cell say. -/
def CellMarks.texts (m : CellMarks) : List (List Char) :=
  (m.colId.map String.toList).toList ++
    (m.colspan.map fun n => "colspan: ".toList ++ Number.integerText n).toList ++
    (m.rowspan.map fun n => "rowspan: ".toList ++ Number.integerText n).toList

/-- Marks that their comments tell apart: spans of one or more, and a column that ends no comment
    and does not begin like a span. -/
structure CellMarks.Readable (m : CellMarks) : Prop where
  column : ∀ id ∈ m.colId, id ≠ "" ∧ '>' ∉ id.toList ∧
    id.toList.dropPrefix? "colspan: ".toList = Option.none ∧
    id.toList.dropPrefix? "rowspan: ".toList = Option.none
  colspan : ∀ n ∈ m.colspan, 0 < n
  rowspan : ∀ n ∈ m.rowspan, 0 < n

/-- Content without `<` is cut off as a whole, if a comment follows or nothing. -/
theorem cutAtComment_append (content notes : List Char) (h : '<' ∉ content)
    (hnotes : notes = [] ∨ commentStart <+: notes) :
    cutAtComment (content ++ notes) = (content, notes) := by
  induction content with
  | nil =>
      rcases hnotes with rfl | ⟨rest, rfl⟩
      · rfl
      · rfl
  | cons c rest ih =>
      rw [List.mem_cons, not_or] at h
      rw [List.cons_append, cutAtComment, ih h.2, if_neg]
      -- What follows the space in front of a comment is no character of the content, and the
      -- comment after the content begins with a space of its own.
      rw [List.isPrefixOf_iff_prefix]
      rintro ⟨tail, htail⟩
      have hnext := (List.cons.inj htail).2
      cases rest with
      | nil =>
          rcases hnotes with rfl | ⟨others, rfl⟩
          · exact absurd hnext (by simp)
          · exact absurd (List.cons.inj hnext).1 (by decide)
      | cons d others =>
          rw [← (List.cons.inj hnext).1] at h
          exact h.2 List.mem_cons_self

/-- Comments are taken apart again, if nothing in them ends a comment. -/
theorem commentTexts_flatMap (texts : List (List Char)) (h : ∀ text ∈ texts, '>' ∉ text) :
    commentTexts (texts.flatMap annotation) = texts := by
  unfold commentTexts
  induction texts with
  | nil => rfl
  | cons text texts ih =>
      rcases List.forall_mem_cons.mp h with ⟨htext, htexts⟩
      have hcomment : '>' ∉ " <!-- ".toList ++ text ++ " --".toList := by
        simp only [List.mem_append, not_or]
        exact ⟨⟨by decide, htext⟩, by decide⟩
      -- A bracket ends each comment and occurs nowhere else in it.
      have hsplit : (text :: texts).flatMap annotation =
          " <!-- ".toList ++ text ++ " --".toList ++ '>' :: texts.flatMap annotation := by
        have hend : " -->".toList = " --".toList ++ ['>'] := rfl
        rw [List.flatMap_cons]
        unfold annotation
        rw [hend]
        simp only [List.append_assoc, List.cons_append, List.nil_append]
      rw [hsplit, Text.splitOn_append_cons '>' _ _ hcomment,
        List.dropLast_cons_of_ne_nil (Text.splitOn_ne_nil _ _), List.map_cons, ih htexts]
      refine congrArg (· :: texts) ?_
      have hlength : (" <!-- ".toList ++ text ++ " --".toList).length - 9 = text.length := by
        simp only [List.length_append]
        change 6 + text.length + 3 - 9 = text.length
        omega
      rw [List.append_assoc] at hlength ⊢
      exact List.take_left' hlength.symm

/-- The comments of a cell are those of its marks. -/
theorem annotations_eq {m : CellMarks} (h : m.Readable) :
    annotations m = m.texts.flatMap annotation := by
  rcases m with ⟨colId, colspan, rowspan⟩
  -- A span that is written is positive, so the code shows it.
  have hspan : ∀ (label : String) (span : Option Int), (∀ n ∈ span, 0 < n) →
      spanAnnotation label span = (span.map fun n =>
        label.toList ++ ": ".toList ++ Number.integerText n).toList.flatMap annotation := by
    intro label span hpos
    cases span with
    | none => rfl
    | some n =>
        have hn := hpos n rfl
        rw [ spanAnnotation, if_neg (by omega)]
        simp
  unfold annotations CellMarks.texts
  rw [List.flatMap_append, List.flatMap_append, hspan "colspan" colspan h.colspan,
    hspan "rowspan" rowspan h.rowspan]
  refine congrArg (· ++ _) (congrArg (· ++ _) ?_)
  cases colId with
  | none => rfl
  | some id =>
      simp only [if_neg (h.column id rfl).1]
      simp

theorem readNumber_integerText {n : Int} (h : 0 < n) :
    (Nat.ofDigitChars 10 (Number.integerText n) 0 : Int) = n := by
  rw [Number.integerText, if_neg (by omega), List.nil_append, Number.ofDigitChars_naturalText]
  omega

theorem gt_not_mem_texts {m : CellMarks} (h : m.Readable) : ∀ text ∈ m.texts, '>' ∉ text := by
  -- A number has no bracket in it, and neither has a label.
  have hspan : ∀ (label : List Char) (span : Option Int), '>' ∉ label →
      ∀ text ∈ (span.map fun n => label ++ Number.integerText n).toList, '>' ∉ text := by
    intro label span hlabel text htext
    cases span with
    | none => exact absurd htext List.not_mem_nil
    | some n =>
        rw [List.mem_singleton.mp htext, List.mem_append, not_or]
        exact ⟨hlabel, not_mem_integerText n '>' (by decide) rfl⟩
  unfold CellMarks.texts
  rw [List.forall_mem_append, List.forall_mem_append]
  refine ⟨⟨fun text htext => ?_, hspan _ _ (by decide)⟩, hspan _ _ (by decide)⟩
  rcases m with ⟨colId, colspan, rowspan⟩
  cases colId with
  | none => exact absurd htext List.not_mem_nil
  | some id =>
      rw [List.mem_singleton.mp htext]
      exact (h.column id rfl).2.1

/-- The comments of a cell tell its marks. -/
theorem readMarks_annotations {m : CellMarks} (h : m.Readable) :
    readMarks (annotations m) = m := by
  rw [readMarks, annotations_eq h, commentTexts_flatMap _ (gt_not_mem_texts h)]
  rcases m with ⟨colId, colspan, rowspan⟩
  -- The three marks are read one after another, each into its own field.
  have hcolumn : (colId.map String.toList).toList.foldl readMark CellMarks.none =
      ⟨colId, none, none⟩ := by
    cases colId with
    | none => rfl
    | some id =>
        rcases h.column id rfl with ⟨_, _, hcolspan, hrowspan⟩
        change readMark CellMarks.none id.toList = _
        rw [readMark, hcolspan, hrowspan, String.ofList_toList]
        rfl
  have hcolspan : (colspan.map fun n => "colspan: ".toList ++ Number.integerText n).toList.foldl
      readMark ⟨colId, none, none⟩ = ⟨colId, colspan, none⟩ := by
    cases colspan with
    | none => rfl
    | some n =>
        have hlabel := List.dropPrefix?_append_of_beq (Number.integerText n)
          (beq_self_eq_true "colspan: ".toList)
        change readMark _ ("colspan: ".toList ++ Number.integerText n) = _
        rw [readMark, hlabel]
        simp only [readNumber_integerText (h.colspan n rfl)]
  have hrowspan : (rowspan.map fun n => "rowspan: ".toList ++ Number.integerText n).toList.foldl
      readMark ⟨colId, colspan, none⟩ = ⟨colId, colspan, rowspan⟩ := by
    cases rowspan with
    | none => rfl
    | some n =>
        have hother : ("rowspan: ".toList ++ Number.integerText n).dropPrefix?
            "colspan: ".toList = none := rfl
        have hlabel := List.dropPrefix?_append_of_beq (Number.integerText n)
          (beq_self_eq_true "rowspan: ".toList)
        change readMark _ ("rowspan: ".toList ++ Number.integerText n) = _
        rw [readMark, hother, hlabel]
        simp only [readNumber_integerText (h.rowspan n rfl)]
  rw [CellMarks.texts, List.foldl_append, List.foldl_append, hcolumn, hcolspan, hrowspan]

/-- A cell of escaped text is read back: its text on one line, and its marks. -/
theorem read_escaped {m : CellMarks} (h : m.Readable) (text : List Char) :
    unescape (cutAtComment (cellText (escape text) ++ annotations m)).1 = joinLines false text ∧
      readMarks (cutAtComment (cellText (escape text) ++ annotations m)).2 = m := by
  have hnotes : annotations m = [] ∨ commentStart <+: annotations m := by
    rw [ annotations_eq h]
    cases m.texts with
    | nil => exact Or.inl rfl
    | cons first others => exact Or.inr ⟨_, rfl⟩
  rw [cellText_escape, cutAtComment_append _ _ (angle_not_mem_escape (Or.inl rfl) _) hnotes]
  exact ⟨unescape_escape _, readMarks_annotations h⟩

example :
    cutAtComment "a\\| &lt;\\!-- <!-- col-4 --> <!-- rowspan: 12 -->".toList =
        ("a\\| &lt;\\!--".toList, " <!-- col-4 --> <!-- rowspan: 12 -->".toList) ∧
      readMarks " <!-- col-4 --> <!-- rowspan: 12 -->".toList = ⟨"col-4", none, some 12⟩ := by
  decide

end Markdown

end PageDistill
