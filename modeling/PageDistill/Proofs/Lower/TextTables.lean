import PageDistill.Proofs.Lower.Tables
import PageDistill.Proofs.Markdown.CellReading

/-!
# Tables of Text

A table whose cells hold only text can be read back from its lines.

The escape of the text meets that of the pipes here: escaped text has no pipe that delimits, so a
line is cut into the very pieces that it was made of. A row of the page is found by its number,
since only a separator comes between, and a cell by the column that it begins in, since a cell that
spans more columns is followed by empty pieces. The piece of the cell then tells its text and its
marks.

Nothing is asked of the descent, for it is never used. So one thing alone can go wrong: the id of a
column may have too many digits, if columns are marked at all.

## Main definitions

* `lineNumber`: The line that a row is written on.

## Theorems

* `MadeCells.piece`: The piece of a cell stands at its column.
* `lowerElement_text_table`: The cells of a table of text are read back.
-/

namespace PageDistill

open Markdown (Node Cell CellMarks)

/-- The line of a table that a row is written on. Below a header it is one further down, for the
    separator. -/
def lineNumber (header : Bool) (row : Nat) : Nat := if header && row != 0 then row + 1 else row

theorem getElem?_separated (header : Bool) (rows : List (List Cell)) (i : Nat) :
    (separated header rows)[lineNumber header i]? = rows[i]? := by
  cases rows with
  | nil => rfl
  | cons first others =>
      rw [separated, lineNumber]
      cases header with
      | false => rfl
      | true => cases i <;> rfl

theorem marksAt_readable (o : Options) (position : Nat) (cell : Dom.Element) :
    (marksAt o position cell).Readable where
  column id hid := by
    rw [colId_marksAt hid]
    refine ⟨fun hempty => ?_, not_mem_columnId position '>' (by decide) rfl, ?_, ?_⟩
    · have hnil := congrArg String.toList hempty
      rw [toList_columnId] at hnil
      exact absurd hnil nofun
    · rw [toList_columnId]
      rfl
    · rw [toList_columnId]
      rfl
  colspan n hn := by
    have hmark := spanMark_ge _ n hn
    omega
  rowspan n hn := by
    have hmark := spanMark_ge _ n hn
    omega

section

variable {o : Options} {made : Dom.Element → List Node → Prop} {position : Nat}
  {elements : List Dom.Element} {cells : List Cell}

/-- The cells before a cell take the columns before its own. -/
theorem MadeCells.piece (h : MadeCells o made position elements cells) (indent : Int) {j : Nat}
    {cell : Dom.Element} (hcell : elements[j]? = some cell) (honly : cell.holdsOnlyText = true) :
    (Markdown.rowPieces indent cells)[columnsOf (elements.take j)]? =
      some (' ' :: (Markdown.cellText (Markdown.escape (Text.trim cell.text)) ++
        Markdown.annotations (marksAt o (position + columnsOf (elements.take j)) cell) ++
          [' '])) := by
  -- A cell that is written before others moves them on by the columns that it takes.
  have hskip : ∀ position (first : Dom.Element) content (pieces : List (List Char)) n,
      (Markdown.cellPieces (marksAt o position first) content ++ pieces)[
        spanOf first.tag "colspan" + n]? = pieces[n]? := by
    intro position first content pieces n
    have hlength := Markdown.length_cellPieces (marksAt_proper o position first) content
    rw [width_marksAt] at hlength
    rw [List.getElem?_append_right (by omega)]
    congr 1
    omega
  induction h generalizing j with
  | nil =>
      rw [List.getElem?_nil] at hcell
      exact absurd hcell (Option.some_ne_none cell).symm
  | plain position first _ _ ih =>
      cases j with
      | zero =>
          rw [← Option.some.inj hcell, Markdown.rowPieces, String.toList_ofList]
          rfl
      | succ j =>
          have hnext := ih hcell
          rw [List.take_succ_cons, columnsOf, Markdown.rowPieces, hskip, hnext, Nat.add_assoc]
  | rich position first content hrich _ _ ih =>
      cases j with
      | zero =>
          rw [Option.some.inj hcell, honly] at hrich
          exact absurd hrich.symm Bool.false_ne_true
      | succ j =>
          have hnext := ih hcell
          rw [List.take_succ_cons, columnsOf, Markdown.rowPieces, hskip, hnext, Nat.add_assoc]

end

/-- A row of text has no stray pipes. -/
theorem MadeCells.strayPipes_eq_zero {o : Options} {position : Nat} {elements : List Dom.Element}
    {cells : List Cell} (h : MadeCells o (fun _ _ => False) position elements cells)
    (indent : Int) : ∀ cell ∈ cells, cell.strayPipes indent = 0 :=
  h.forall_cell (fun _ _ _ _ => strayPipes_escaped indent _ _) fun _ _ _ hcontent _ => hcontent.elim

/-- A table of text is lowered without the descent, unless the id of a column is too long. -/
theorem lowerElement_textTable_ends {o : Options} (lower : Descent) (indent : Int)
    {e : Dom.Element} (hcategory : Dom.categoryOf o.metadata.wanted e.name = .table)
    (honly : ∀ row ∈ e.named "tr", ∀ cell ∈ cellElements row, cell.holdsOnlyText = true) :
    (lowerElement o lower indent e).Ends
      (fun nodes => ∃ rows colIds, nodes = [.table (separated (hasHeader e) rows) colIds] ∧
        MadeRows o (fun _ _ => False) e rows)
      (fun fault => fault = .tooManyDigits none ∧ o.trackTableColumns = true ∧
        ∃ row ∈ e.named "tr", columnBound ≤ columnsOf (cellElements row)) := by
  refine lowerElement_of_table hcategory (lowerTable_rows indent
    (fun row hrow cell hcell hrich => ?_) fun row hrow j _ htrack hfar => ?_)
  · rw [honly row hrow cell hcell] at hrich
    exact absurd hrich nofun
  · exact ⟨rfl, htrack, row, hrow, Nat.le_trans hfar (columnsOf_take_le _ j)⟩

/-- The line of a row with cells is cut into the pieces of the row, and those that fill it up. -/
theorem exists_line_of_row {o : Options} {e : Dom.Element} {rows : List (List Cell)}
    (h : MadeRows o (fun _ _ => False) e rows) (indent : Int) (colIds : Option (List String))
    {i : Nat} {row : Dom.Element} (hrow : (e.named "tr")[i]? = some row)
    (hne : cellElements row ≠ []) :
    ∃ cells line fill, MadeCells o (fun _ _ => False) 0 (cellElements row) cells ∧
      (Text.splitOn '\n' ((Node.table (separated (hasHeader e) rows) colIds).block indent))[
        lineNumber (hasHeader e) i]? = some line ∧
      Markdown.lineCells line = Markdown.rowPieces indent cells ++ fill := by
  rcases List.getElem?_eq_some_iff.mp hrow with ⟨hlt, rfl⟩
  have hlt' : i < rows.length := by rwa [← h.length_eq]
  have hcells : MadeCells o (fun _ _ => False) 0 (cellElements (e.named "tr")[i]) rows[i] :=
    h.get hlt hlt'
  have hplace : (separated (hasHeader e) rows)[lineNumber (hasHeader e) i]? = some rows[i] := by
    rw [getElem?_separated]
    exact List.getElem?_eq_getElem hlt'
  have hmem := List.mem_of_getElem? hplace
  have hproper := proper_made h
  -- The row takes a column, so the table has one.
  have hle := Markdown.rowWidth_le_tableWidth _ _ hmem
  have hcolumns := hcells.rowWidth_eq
  have hpos := columnsOf_pos hne
  refine ⟨rows[i], _, _, hcells, ?_, Markdown.lineCells_tableLine (hproper _ hmem) indent
    (by omega) hle (hcells.strayPipes_eq_zero indent)⟩
  rw [Markdown.splitOn_block_table hproper indent colIds (by omega), List.getElem?_map, hplace]
  rfl

/-- A table of text without hooks is read back from its lines. The piece at the column of a cell
    says, up to its first comment, the text of the cell on one line, and from there on its column
    and its spans.

    There are no lines to read if columns are tracked and a row is so wide that the number of a
    column has too many digits to be written. Lowering the table fails then, with the error that
    tells of it, and it fails for no other reason. -/
theorem lowerElement_text_table (o : Options) (hnode : o.WithoutNodeHooks) (lower : Descent)
    (indent start : Int) (e : Dom.Element)
    (hcategory : Dom.categoryOf o.metadata.wanted e.name = .table)
    (honly : ∀ row ∈ e.named "tr", ∀ cell ∈ cellElements row, cell.holdsOnlyText = true) :
    (∃ node text, (lowerElement o lower indent e).result = .ok [node] ∧
        node.body o start = .ok text ∧
        ∀ i row, (e.named "tr")[i]? = some row → ∀ j cell, (cellElements row)[j]? = some cell →
          ∃ line piece,
            (Text.splitOn '\n' text)[lineNumber (hasHeader e) i]? = some line ∧
            (Markdown.lineCells line)[columnsOf ((cellElements row).take j)]? =
              some (' ' :: (piece ++ [' '])) ∧
            Markdown.unescape (Markdown.cutAtComment piece).1 =
              Markdown.joinLines false (Text.trim cell.text) ∧
            Markdown.readMarks (Markdown.cutAtComment piece).2 =
              marksAt o (columnsOf ((cellElements row).take j)) cell) ∨
      (lowerElement o lower indent e).result = .error (.tooManyDigits none) ∧
        o.trackTableColumns = true ∧
        ∃ row ∈ e.named "tr", columnBound ≤ columnsOf (cellElements row) := by
  rcases (lowerElement_textTable_ends lower indent hcategory honly).cases with
    ⟨_, hresult, rows, colIds, rfl, hmade⟩ | ⟨_, hresult, rfl, hwide⟩
  · refine Or.inl ⟨_, _, hresult, Node.body_unhooked hnode start _, ?_⟩
    intro i row hi j cell hj
    have hcell := List.mem_of_getElem? hj
    have hread := Markdown.read_escaped
      (marksAt_readable o (columnsOf ((cellElements row).take j)) cell) (Text.trim cell.text)
    rcases exists_line_of_row hmade start colIds hi (List.ne_nil_of_mem hcell) with
      ⟨cells, line, fill, hcells, hline, hpieces⟩
    have hpiece := hcells.piece start hj (honly row (List.mem_of_getElem? hi) cell hcell)
    rw [Nat.zero_add] at hpiece
    refine ⟨line, _, hline, ?_, hread⟩
    rw [hpieces, List.getElem?_append_left (List.getElem?_eq_some_iff.mp hpiece).1]
    exact hpiece
  · exact Or.inr ⟨hresult, hwide⟩

/-- A header of two columns and a row below it, with marked columns. The texts hold pipes and
    backslashes in a row, the beginning of a comment, line ends and an entity. -/
theorem lowerElement_text_table_marked :
    let th : Dom.Node :=
      .element ⟨"th", [("colspan", .text "2")]⟩ [.text " a\\\\|b <!-- colspan: 7 -->\\"]
    let td (text : String) : Dom.Node := .element ⟨"td", [("rowspan", .text "3")]⟩ [.text text]
    let e : Dom.Element := ⟨"body", .ordinary, ⟨"table", []⟩,
      [.element ⟨"tr", []⟩ [th, td "x"], .element ⟨"tr", []⟩ [td "|", td "", td "c\n\n|d &lt; e"]]⟩
    let o := { Options.default with trackTableColumns := true }
    o.WithoutNodeHooks ∧ Dom.categoryOf o.metadata.wanted e.name = .table ∧
      (∀ row ∈ e.named "tr", ∀ cell ∈ cellElements row, cell.holdsOnlyText = true) ∧
      ∃ node text, (lowerElement o (lowerLevels o 5) 0 e).result = .ok [node] ∧
        node.body o 1 = .ok text ∧
        ∀ i row, (e.named "tr")[i]? = some row → ∀ j cell, (cellElements row)[j]? = some cell →
          ∃ line piece,
            (Text.splitOn '\n' text)[lineNumber true i]? = some line ∧
            (Markdown.lineCells line)[columnsOf ((cellElements row).take j)]? =
              some (' ' :: (piece ++ [' '])) ∧
            Markdown.unescape (Markdown.cutAtComment piece).1 =
              Markdown.joinLines false (Text.trim cell.text) ∧
            Markdown.readMarks (Markdown.cutAtComment piece).2 =
              marksAt o (columnsOf ((cellElements row).take j)) cell := by
  intro th td e o
  have hnode : o.WithoutNodeHooks := ⟨rfl, rfl⟩
  have hcategory : Dom.categoryOf o.metadata.wanted e.name = .table := by decide
  have honly : ∀ row ∈ e.named "tr", ∀ cell ∈ cellElements row, cell.holdsOnlyText = true := by
    decide
  have hheader : hasHeader e = true := by decide
  have hnarrow : ∀ row ∈ e.named "tr", columnsOf (cellElements row) ≤ 3 := by decide
  refine ⟨hnode, hcategory, honly, ?_⟩
  rcases lowerElement_text_table o hnode (lowerLevels o 5) 0 1 e hcategory honly with
    hread | ⟨_, _, row, hrow, hwide⟩
  · rw [hheader] at hread
    exact hread
  -- No row here is as wide as the bound.
  · have hbound : 3 < columnBound := by decide +kernel
    have hwidth := hnarrow row hrow
    omega

end PageDistill
