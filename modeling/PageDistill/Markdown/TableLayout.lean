import PageDistill.Markdown.Node
import PageDistill.Number.Integer
import PageDistill.Text.Blank

/-!
# Layout of Tables

Lines of a Markdown table from the rendered contents of its cells.

The content of a cell is brought onto one line, and every pipe without a
backslash before it gets one. Comments after the content tell the column and
the spans of the cell. A cell that spans more columns than one is followed by an
empty piece for each of the others, and a row that is too short by pieces of two
spaces, so that every line has the same number of pieces.

## Main definitions

* `joinLines`: A text on one line.
* `escapePipes`: A text without a bare pipe.
* `annotations`: The comments that tell the marks of a cell.
* `cellPieces`: The pieces of one cell.
* `tableWidth`: The number of columns of a table.
* `tableLine`: One line of a table.

## Theorems

* `rowWidth_le_tableWidth`, `exists_rowWidth_eq`: The width of a table is the greatest width of
  a row.
* `length_le_rowWidth`: A row takes a column for each of its cells, at least.
* `eq_nil_of_tableWidth_eq_zero`: A table without columns has no cells.
-/

namespace PageDistill

namespace Markdown

/-- Replaces every run of line ends by one space. The flag tells whether a line
    end stands right before the text. -/
def joinLines (inRun : Bool) : List Char → List Char
  | [] => []
  | c :: rest =>
    if c = '\n' then (if inRun then joinLines true rest else ' ' :: joinLines true rest)
    else c :: joinLines false rest

/-- Puts a backslash before every pipe that has none. The flag tells whether a
    backslash stands right before the text. -/
def escapePipes (afterBackslash : Bool) : List Char → List Char
  | [] => []
  | c :: rest =>
    if c = '|' ∧ !afterBackslash then '\\' :: '|' :: escapePipes false rest
    else c :: escapePipes (c == '\\') rest

/-- The content of a cell as it stands in a line of a table. -/
def cellText (content : List Char) : List Char := escapePipes false (joinLines false content)

/-- A comment after the content of a cell. -/
def annotation (s : List Char) : List Char := " <!-- ".toList ++ s ++ " -->".toList

/-- The comment that tells a span; a span that is missing or zero is not told. -/
def spanAnnotation (label : String) (span : Option Int) : List Char :=
  match span with
  | some n =>
    if n = 0 then [] else annotation (label.toList ++ ": ".toList ++ Number.integerText n)
  | none => []

/-- The comments that tell the marks of a cell. -/
def annotations (m : CellMarks) : List Char :=
  let column :=
    match m.colId with
    | some id => if id = "" then [] else annotation id.toList
    | none => []
  column ++ spanAnnotation "colspan" m.colspan ++ spanAnnotation "rowspan" m.rowspan

/-- The pieces of a cell with some rendered content: the cell itself, and an
    empty piece for each further column that it spans. -/
def cellPieces (m : CellMarks) (content : List Char) : List (List Char) :=
  (' ' :: (cellText content ++ annotations m ++ [' '])) ::
    List.replicate (m.width - 1).toNat [' ']

/-- The number of columns of a table: the greatest width of a row. -/
def tableWidth : List (List Cell) → Int
  | [] => 0
  | [row] => rowWidth row
  | row :: rows => max (rowWidth row) (tableWidth rows)

/-- A line of a table of some width, from the pieces and the width of a row. -/
def tableLine (width : Int) (row : List Cell) (pieces : List (List Char)) : List Char :=
  let filled := pieces ++ List.replicate (width - rowWidth row).toNat [' ', ' ']
  '|' :: (Text.joinWith ['|'] filled ++ ['|'])

theorem rowWidth_le_tableWidth (rows : List (List Cell)) (row : List Cell) (h : row ∈ rows) :
    rowWidth row ≤ tableWidth rows := by
  induction rows with
  | nil => exact absurd h List.not_mem_nil
  | cons first rest ih =>
      cases rest with
      | nil =>
          rw [List.mem_singleton] at h
          exact Int.le_of_eq (by rw [h, tableWidth])
      | cons next others =>
          change rowWidth row ≤ max (rowWidth first) (tableWidth (next :: others))
          rcases List.mem_cons.mp h with rfl | hrest
          · exact Int.le_max_left _ _
          · exact Int.le_trans (ih hrest) (Int.le_max_right _ _)

/-- Some row of a table with rows is as wide as the table. -/
theorem exists_rowWidth_eq (rows : List (List Cell)) (h : rows ≠ []) :
    ∃ row ∈ rows, rowWidth row = tableWidth rows := by
  induction rows with
  | nil => exact absurd rfl h
  | cons first rest ih =>
      cases rest with
      | nil => exact ⟨first, List.mem_cons_self, rfl⟩
      | cons next others =>
          change ∃ row ∈ _, rowWidth row = max (rowWidth first) (tableWidth (next :: others))
          rcases ih (by simp) with ⟨row, hrow, heq⟩
          rcases Int.le_total (rowWidth first) (tableWidth (next :: others)) with hle | hle
          · rw [Int.max_eq_right hle]
            exact ⟨row, List.mem_cons_of_mem first hrow, heq⟩
          · rw [Int.max_eq_left hle]
            exact ⟨first, List.mem_cons_self, rfl⟩

/-- A span of one or more, or none, lets a cell take a column. -/
theorem CellMarks.one_le_width (m : CellMarks) (h : ∀ n, m.colspan = some n → 1 ≤ n) :
    1 ≤ m.width := by
  unfold CellMarks.width
  cases hspan : m.colspan with
  | none => exact Int.le_refl 1
  | some n =>
      have hn := h n hspan
      simp only
      rw [if_neg (by omega)]
      exact hn

/-- A row takes a column for each of its cells, at least. -/
theorem length_le_rowWidth (row : List Cell)
    (h : ∀ cell ∈ row, ∀ n, cell.marks.colspan = some n → 1 ≤ n) :
    (row.length : Int) ≤ rowWidth row := by
  induction row with
  | nil => exact Int.le_refl 0
  | cons cell cells ih =>
      have hcell := cell.marks.one_le_width (h cell List.mem_cons_self)
      have hrest := ih fun c hc => h c (List.mem_cons_of_mem cell hc)
      rw [rowWidth, List.length_cons]
      omega

/-- A table without columns has no cells. -/
theorem eq_nil_of_tableWidth_eq_zero (rows : List (List Cell))
    (h : ∀ row ∈ rows, ∀ cell ∈ row, ∀ n, cell.marks.colspan = some n → 1 ≤ n)
    (hzero : tableWidth rows = 0) : ∀ row ∈ rows, row = [] := by
  intro row hrow
  have hlength := length_le_rowWidth row (h row hrow)
  have hle := rowWidth_le_tableWidth rows row hrow
  exact List.length_eq_zero_iff.mp (by omega)

end Markdown

end PageDistill
