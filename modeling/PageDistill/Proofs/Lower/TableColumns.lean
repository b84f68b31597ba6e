import PageDistill.Proofs.Lower.Tables

/-!
# Columns of a Lowered Table

Where the cells of a table begin, and what their marks say of it.

A row is lowered cell by cell, and each cell begins where the spans of the cells before it end. The
same spans are marked on the cells, except for those of one. The width of a header is added up from
the marks again, after the row is made; it is the sum of the spans, since a span without a mark is
one (`MadeCells.rowWidth_eq`). So the separator and the list of columns fit the header, however
ragged the rows and however malformed the spans.

Nothing is asked of the descent, whose results only fill the cells. The one thing that can go wrong
with columns is a cell that begins so far to the right that the number of its column has too many
digits; `TableFault` names it, and whatever goes wrong in a cell. A table that is lowered has no
such cell, so this is exactly when columns fail.

## Main definitions

* `cellStart`, `headerColumns`: The column that a cell begins in, and the columns of the first row.
* `SpanRead`: What a span is, and how it is marked.
* `CellNodes`, `ContentOf`, `CellOf`, `RowOf`: What is made of a cell and of a row.
* `TableFault`: The ways to fail.

## Theorems

* `spanRead`: Every span is read in one of two ways.
* `columnId_injective`: Columns are told apart by their ids.
* `MadeCells.rowOf`: What is made of the cells of a row.
* `lowerElement_table_columns`: The columns of a lowered table.
-/

namespace PageDistill

open Markdown (Node Cell CellMarks)

/-- The column that a cell of a row begins in: the spans of the cells before it, added up. -/
def cellStart (row : Dom.Element) (j : Nat) : Nat := columnsOf ((cellElements row).take j)

/-- The number of columns of the first row of a table. -/
def headerColumns (e : Dom.Element) : Nat :=
  match e.named "tr" with
  | [] => 0
  | header :: _ => columnsOf (cellElements header)

/-- What an attribute asks for, and the mark for it. An integer greater than one is both; anything
    else counts as one and is not marked. -/
inductive SpanRead (tag : Dom.Tag) (name : String) : Nat → Option Int → Prop where
  | wide (value : String) (n : Nat) (hvalue : tag.text? name = some value)
      (hread : Number.readInteger? value.toList = some (n : Int)) (hwide : 1 < n) :
      SpanRead tag name n (some n)
  | single (hnarrow : ∀ value n, tag.text? name = some value →
      Number.readInteger? value.toList = some n → n ≤ 1) : SpanRead tag name 1 none

/-- The nodes that the descent makes of a cell, one level further in. -/
abbrev CellNodes (lower : Descent) (indent : Int) (cell : Dom.Element) (nodes : List Node) : Prop :=
  (lower (indent + 1) cell).result = .ok nodes

/-- What a cell holds: its escaped text, if it holds only text, and what the descent makes of it
    otherwise. -/
inductive ContentOf (lower : Descent) (indent : Int) (element : Dom.Element) : Cell → Prop where
  | text (marks : CellMarks) (honly : element.holdsOnlyText = true) :
      ContentOf lower indent element
        (.plain (String.ofList (Markdown.escape (Text.trim element.text))) marks)
  | nodes (marks : CellMarks) (nodes : List Node) (hrich : element.holdsOnlyText = false)
      (hnodes : CellNodes lower indent element nodes) :
      ContentOf lower indent element (.rich nodes marks)

/-- What is made of a cell that begins at a column. -/
structure CellOf (o : Options) (lower : Descent) (indent : Int) (element : Dom.Element)
    (position : Nat) (cell : Cell) : Prop where
  id : cell.marks.colId = if o.trackTableColumns then some (columnId position) else none
  colspan : SpanRead element.tag "colspan" (spanOf element.tag "colspan") cell.marks.colspan
  rowspan : SpanRead element.tag "rowspan" (spanOf element.tag "rowspan") cell.marks.rowspan
  content : ContentOf lower indent element cell

/-- What is made of a row. -/
structure RowOf (o : Options) (lower : Descent) (indent : Int) (row : Dom.Element)
    (cells : List Cell) : Prop where
  count : cells.length = (cellElements row).length
  cell : ∀ j element, (cellElements row)[j]? = some element →
    ∃ cell, cells[j]? = some cell ∧ CellOf o lower indent element (cellStart row j) cell
  increasing : (cells.filterMap fun cell => cell.marks.colId).Pairwise fun id next =>
    ∃ p q, id = columnId p ∧ next = columnId q ∧ p < q

/-- The ways in which a table is not lowered: a cell begins too far to the right, when columns are
    marked, or the contents of a cell are not lowered. -/
inductive TableFault (o : Options) (lower : Descent) (indent : Int) (e : Dom.Element) :
    ConversionError → Prop where
  | column (row : Dom.Element) (j : Nat) (hrow : row ∈ e.named "tr")
      (hcell : j < (cellElements row).length) (htrack : o.trackTableColumns = true)
      (hfar : columnBound ≤ cellStart row j) : TableFault o lower indent e (.tooManyDigits none)
  | content (row cell : Dom.Element) {fault : ConversionError} (hrow : row ∈ e.named "tr")
      (hcell : cell ∈ cellElements row) (hrich : cell.holdsOnlyText = false)
      (hfault : (lower (indent + 1) cell).result = .error fault) :
      TableFault o lower indent e fault

theorem spanOf_of_read {tag : Dom.Tag} {name value : String} {n : Int}
    (hvalue : tag.text? name = some value) (hread : Number.readInteger? value.toList = some n) :
    spanOf tag name = max 1 n.toNat := by
  unfold spanOf
  simp only [hvalue, hread, Option.getD_some]

theorem spanOf_eq_one {tag : Dom.Tag} {name : String}
    (hnarrow : ∀ value n, tag.text? name = some value →
      Number.readInteger? value.toList = some n → n ≤ 1) : spanOf tag name = 1 := by
  cases hvalue : tag.text? name with
  | none =>
      unfold spanOf
      simp only [hvalue]
  | some value =>
      cases hread : Number.readInteger? value.toList with
      | none =>
          unfold spanOf
          simp only [hvalue, hread]
          rfl
      | some n =>
          have hle := hnarrow value n hvalue hread
          rw [spanOf_of_read hvalue hread]
          omega

/-- Every span is read, and marked, in one of the two ways. -/
theorem spanRead (tag : Dom.Tag) (name : String) :
    SpanRead tag name (spanOf tag name) (spanMark (spanOf tag name)) := by
  by_cases hwide : ∃ value n, tag.text? name = some value ∧
      Number.readInteger? value.toList = some n ∧ 1 < n
  · rcases hwide with ⟨value, n, hvalue, hread, hn⟩
    have hmark : 1 < n.toNat := by omega
    rw [spanOf_of_read hvalue hread, Nat.max_eq_right (Nat.le_of_lt hmark), spanMark, if_pos hmark]
    refine .wide value n.toNat hvalue ?_ hmark
    rw [hread, Int.toNat_of_nonneg (by omega)]
  · have hnarrow : ∀ value n, tag.text? name = some value →
        Number.readInteger? value.toList = some n → n ≤ 1 := by
      intro value n hvalue hread
      by_contra hn
      exact hwide ⟨value, n, hvalue, hread, by omega⟩
    rw [spanOf_eq_one hnarrow]
    exact .single hnarrow

/-- Columns are told apart by their ids. -/
theorem columnId_injective {p q : Nat} (h : columnId p = columnId q) : p = q := by
  have htext := congrArg String.toList h
  rw [toList_columnId, toList_columnId, List.append_cancel_left_eq] at htext
  rw [← Number.ofDigitChars_naturalText p, htext, Number.ofDigitChars_naturalText]

section

variable {o : Options} {lower : Descent} {indent : Int} {position : Nat}
  {elements : List Dom.Element} {cells : List Cell}

/-- Such marks are put on a cell, whatever it holds. -/
theorem CellOf.of_marksAt {element : Dom.Element} {cell : Cell}
    (hmarks : cell.marks = marksAt o position element)
    (hcontent : ContentOf lower indent element cell) :
    CellOf o lower indent element position cell where
  id := by rw [hmarks]; rfl
  colspan := by rw [hmarks]; exact spanRead _ _
  rowspan := by rw [hmarks]; exact spanRead _ _
  content := hcontent

/-- The first cell of a row, and the cells that begin where it ends. -/
theorem MadeCells.cons_inv {element : Dom.Element}
    (h : MadeCells o (CellNodes lower indent) position (element :: elements) cells) :
    ∃ cell rest, cells = cell :: rest ∧ CellOf o lower indent element position cell ∧
      MadeCells o (CellNodes lower indent) (position + spanOf element.tag "colspan") elements
        rest := by
  cases h with
  | plain _ _ honly hrest => exact ⟨_, _, rfl, .of_marksAt rfl (.text _ honly), hrest⟩
  | rich _ _ nodes hrich hnodes hrest =>
      exact ⟨_, _, rfl, .of_marksAt rfl (.nodes _ nodes hrich hnodes), hrest⟩

/-- The cells of a row go in step with the elements, and each begins where the spans of the elements
    before it end. -/
theorem MadeCells.cellOf
    (h : MadeCells o (CellNodes lower indent) position elements cells) :
    cells.length = elements.length ∧ ∀ j element, elements[j]? = some element →
      ∃ cell, cells[j]? = some cell ∧
        CellOf o lower indent element (position + columnsOf (elements.take j)) cell := by
  induction elements generalizing position cells with
  | nil =>
      cases h
      exact ⟨rfl, fun _ _ hj => absurd hj nofun⟩
  | cons first elements ih =>
      rcases h.cons_inv with ⟨cell, rest, rfl, hcell, hrest⟩
      rcases ih hrest with ⟨hlength, hcells⟩
      refine ⟨by rw [List.length_cons, hlength, List.length_cons], fun j element hj => ?_⟩
      cases j with
      | zero =>
          rw [List.getElem?_cons_zero, Option.some.injEq] at hj
          rw [← hj]
          exact ⟨cell, rfl, hcell⟩
      | succ j =>
          -- The columns in front count the first cell and those between.
          rw [List.take_succ_cons, columnsOf, ← Nat.add_assoc]
          exact hcells j element hj

end

/-- The ids in a row are those of columns from some column on, each one further to the right. -/
theorem MadeCells.increasing {o : Options} {made : Dom.Element → List Node → Prop} {position : Nat}
    {elements : List Dom.Element} {cells : List Cell}
    (h : MadeCells o made position elements cells) :
    (∀ id ∈ cells.filterMap fun cell => cell.marks.colId, ∃ p, id = columnId p ∧ position ≤ p) ∧
      (cells.filterMap fun cell => cell.marks.colId).Pairwise fun id next =>
        ∃ p q, id = columnId p ∧ next = columnId q ∧ p < q := by
  induction h with
  | nil => exact ⟨nofun, List.Pairwise.nil⟩
  | plain position first _ _ ih | rich position first _ _ _ _ ih =>
      rcases ih with ⟨hfrom, hincreasing⟩
      -- Every cell spans a column at least, so the next one starts farther on.
      have hspan := one_le_spanOf first.tag "colspan"
      have hid : (marksAt o position first).colId =
        if o.trackTableColumns then some (columnId position) else none := rfl
      rw [List.filterMap_cons, Cell.marks, hid]
      by_cases htrack : o.trackTableColumns = true
      · rw [if_pos htrack]
        refine ⟨List.forall_mem_cons.mpr ⟨⟨position, rfl, Nat.le_refl _⟩, fun id hid => ?_⟩,
          List.Pairwise.cons (fun id hid => ?_) hincreasing⟩
        · rcases hfrom id hid with ⟨p, hp, hle⟩
          exact ⟨p, hp, by omega⟩
        · rcases hfrom id hid with ⟨p, hp, hle⟩
          exact ⟨position, p, rfl, hp, by omega⟩
      · rw [if_neg htrack]
        refine ⟨fun id hid => ?_, hincreasing⟩
        rcases hfrom id hid with ⟨p, hp, hle⟩
        exact ⟨p, hp, by omega⟩

/-- What is made of the cells of a row. -/
theorem MadeCells.rowOf {o : Options} {lower : Descent} {indent : Int} {row : Dom.Element}
    {cells : List Cell} (h : MadeCells o (CellNodes lower indent) 0 (cellElements row) cells) :
    RowOf o lower indent row cells where
  count := h.cellOf.1
  cell j element hj := by
    have hcell := h.cellOf.2 j element hj
    rwa [Nat.zero_add] at hcell
  increasing := h.increasing.2

section

variable {o : Options}

/-- The separator is as wide as the header, and so is the list of columns. -/
theorem tableOf_of_made {made : Dom.Element → List Node → Prop} {e : Dom.Element}
    {rows : List (List Cell)} (h : MadeRows o made e rows) :
    tableOf o e rows =
      .table (if hasHeader e then rows.insertIdx 1 (separatorRow (headerColumns e)) else rows)
        (if o.trackTableColumns then some ((List.range (headerColumns e)).map columnId)
          else none) := by
  unfold tableOf hasHeader headerColumns
  unfold MadeRows at h
  generalize e.named "tr" = elements at h
  cases h with
  | nil => rfl
  | @cons header _ _ _ hfirst _ =>
      have hwidth := hfirst.rowWidth_eq
      simp only [List.head?_cons, Option.map_some, Option.getD_some, hwidth, Int.toNat_natCast]
      by_cases hheader : (header.first? "th").isSome = true
      · rw [if_pos hheader, if_pos hheader]
        rfl
      · rw [if_neg hheader, if_neg hheader]

/-- Columns that are marked at all are marked in every cell, so an id tells that they are. -/
theorem MadeCells.id_mem {made : Dom.Element → List Node → Prop} {position : Nat}
    {elements : List Dom.Element} {cells : List Cell}
    (h : MadeCells o made position elements cells) :
    ∀ cell ∈ cells, ∀ id, cell.marks.colId = some id → o.trackTableColumns = true ∧
      id ∈ (List.range (position + columnsOf elements)).map columnId := by
  induction h with
  | nil => exact fun _ hcell => absurd hcell List.not_mem_nil
  | plain position first _ _ ih | rich position first _ _ _ _ ih =>
      have hspan := one_le_spanOf first.tag "colspan"
      rw [columnsOf, ← Nat.add_assoc]
      refine List.forall_mem_cons.mpr ⟨fun id hid => ⟨?_, ?_⟩, ih⟩
      · by_contra htrack
        exact Option.some_ne_none id (hid.symm.trans (if_neg htrack))
      · rw [colId_marksAt hid]
        exact List.mem_map_of_mem (List.mem_range.mpr (by omega))

/-- The first row begins in the first column, so its ids are listed for the table. -/
theorem id_mem_header {made : Dom.Element → List Node → Prop} {e : Dom.Element}
    {rows : List (List Cell)} (h : MadeRows o made e rows) {row : List Cell}
    (hrow : row ∈ rows.head?) {cell : Cell} (hcell : cell ∈ row) {id : String}
    (hid : cell.marks.colId = some id) :
    o.trackTableColumns = true ∧ id ∈ (List.range (headerColumns e)).map columnId := by
  unfold headerColumns
  unfold MadeRows at h
  generalize e.named "tr" = elements at h
  cases h with
  | nil => exact absurd hrow nofun
  | cons hfirst _ =>
      rw [List.head?_cons, Option.mem_some_iff] at hrow
      rw [← hrow] at hcell
      have hmem := hfirst.id_mem cell hcell id hid
      rwa [Nat.zero_add] at hmem

/-- A table is made of its rows, unless a cell begins too far to the right or the contents of a cell
    are not lowered; and no table with such a cell is made. -/
theorem lowerElement_table_fits (lower : Descent) (indent : Int) {e : Dom.Element}
    (hcategory : Dom.categoryOf o.metadata.wanted e.name = .table) :
    (lowerElement o lower indent e).Ends
      (fun nodes => ∃ rows, nodes = [tableOf o e rows] ∧
        MadeRows o (CellNodes lower indent) e rows ∧
        (o.trackTableColumns = true → ∀ row ∈ e.named "tr", ∀ j < (cellElements row).length,
          cellStart row j < columnBound))
      (TableFault o lower indent e) := by
  have hmade : (lowerTable o lower indent e).Ends _ (TableFault o lower indent e) :=
    lowerTable_fits indent
      (fun row hrow cell hcell hrich => (Traced.Ends.exact (lower (indent + 1) cell)).mono_bad
        fun fault hfault => .content row cell hrow hcell hrich hfault)
      fun row hrow j hj htrack hfar => .column row j hrow hj htrack hfar
  refine (lowerElement_ends_table hcategory hmade).mono fun nodes hnodes => ?_
  rcases hnodes with ⟨_, rfl, hfits, rows, hrows, rfl⟩
  exact ⟨rows, rfl, hrows, fun htrack row hrow => hfits row hrow htrack⟩

/-- With text alone in the cells of a table, all that can go wrong is that a cell begins too far to
    the right. -/
theorem TableFault.column_of_text {lower : Descent} {indent : Int} {e : Dom.Element}
    {fault : ConversionError} (h : TableFault o lower indent e fault)
    (honly : ∀ row ∈ e.named "tr", ∀ cell ∈ cellElements row, cell.holdsOnlyText = true) :
    fault = .tooManyDigits none ∧ o.trackTableColumns = true ∧ ∃ row ∈ e.named "tr",
      ∃ j < (cellElements row).length, columnBound ≤ cellStart row j := by
  cases h with
  | column row j hrow hcell htrack hfar => exact ⟨rfl, htrack, row, hrow, j, hcell, hfar⟩
  | content row cell hrow hcell hrich _ =>
      rw [honly row hrow cell hcell] at hrich
      exact absurd hrich nofun

/-- A cell of such a table that begins too far to the right stops the table from being made. -/
theorem lowerElement_table_too_far (lower : Descent) (indent : Int) {e row : Dom.Element} {j : Nat}
    (hcategory : Dom.categoryOf o.metadata.wanted e.name = .table)
    (honly : ∀ row ∈ e.named "tr", ∀ cell ∈ cellElements row, cell.holdsOnlyText = true)
    (htrack : o.trackTableColumns = true) (hrow : row ∈ e.named "tr")
    (hcell : j < (cellElements row).length) (hfar : columnBound ≤ cellStart row j) :
    (lowerElement o lower indent e).result = .error (.tooManyDigits none) := by
  rcases (lowerElement_table_fits lower indent hcategory).cases with
    ⟨_, _, _, _, _, hfits⟩ | ⟨fault, hresult, hfault⟩
  · exact absurd hfar (Nat.not_le.mpr (hfits htrack row hrow j hcell))
  · rw [hresult, (hfault.column_of_text honly).1]

/-- Such a table is made when the columns that its cells begin in have numbers. -/
theorem lowerElement_table_of_text (lower : Descent) (indent : Int) {e : Dom.Element}
    (hcategory : Dom.categoryOf o.metadata.wanted e.name = .table)
    (honly : ∀ row ∈ e.named "tr", ∀ cell ∈ cellElements row, cell.holdsOnlyText = true)
    (hnear : ∀ row ∈ e.named "tr", ∀ j < (cellElements row).length, cellStart row j < columnBound) :
    ∃ rows, (lowerElement o lower indent e).result = .ok [.table
        (if hasHeader e then rows.insertIdx 1 (separatorRow (headerColumns e)) else rows)
        (if o.trackTableColumns then some ((List.range (headerColumns e)).map columnId)
          else none)] ∧
      List.Forall₂ (RowOf o lower indent) (e.named "tr") rows := by
  rcases (lowerElement_table_fits lower indent hcategory).cases with
    ⟨_, hresult, rows, rfl, hrows, _⟩ | ⟨fault, _, hfault⟩
  · exact ⟨rows, by rw [hresult, tableOf_of_made hrows], hrows.imp fun _ _ h => h.rowOf⟩
  · rcases hfault.column_of_text honly with ⟨_, _, row, hrow, j, hcell, hfar⟩
    exact absurd hfar (Nat.not_le.mpr (hnear row hrow j hcell))

end

/-- The columns of a lowered table, for any descent. There is a row for each row of the page, with a
    cell for each of its cells, which says in what column it begins if columns are marked, and its
    spans. Columns are listed, and a separator is put below a header, for the columns of the first
    row. That goes for every table in which no cell begins too far to the right and the contents of
    all cells are lowered, and no other table is lowered. -/
theorem lowerElement_table_columns (o : Options) (lower : Descent) (indent : Int) (e : Dom.Element)
    (hcategory : Dom.categoryOf o.metadata.wanted e.name = .table) :
    (∃ rows colIds, (lowerElement o lower indent e).result = .ok [.table
          (if hasHeader e then
            rows.insertIdx 1 (List.replicate (headerColumns e) (.plain "---" CellMarks.none))
          else rows) colIds] ∧
        List.Forall₂ (RowOf o lower indent) (e.named "tr") rows ∧
        colIds = (if o.trackTableColumns then some ((List.range (headerColumns e)).map columnId)
          else none) ∧
        (∀ row ∈ rows.head?, ∀ cell ∈ row, ∀ id, cell.marks.colId = some id →
          id ∈ colIds.getD []) ∧
        (o.trackTableColumns = true → ∀ row ∈ e.named "tr", ∀ j < (cellElements row).length,
          cellStart row j < columnBound)) ∨
      ∃ fault, (lowerElement o lower indent e).result = .error fault ∧
        TableFault o lower indent e fault := by
  rcases (lowerElement_table_fits lower indent hcategory).cases with
    ⟨_, hresult, rows, rfl, hrows, hfits⟩ | hfault
  · rw [tableOf_of_made hrows] at hresult
    refine Or.inl ⟨rows, _, hresult, hrows.imp fun _ _ h => h.rowOf, rfl,
      fun row hrow cell hcell id hid => ?_, hfits⟩
    rcases id_mem_header hrows hrow hcell hid with ⟨htrack, hmem⟩
    rw [if_pos htrack]
    exact hmem
  · exact Or.inr hfault

/-- A header of three columns above a row that is wider, with spans that are no integers, or not
    positive, or one. -/
theorem lowerElement_table_columns_ragged :
    let cell (name : String) (attrs : List (String × Dom.AttrValue)) : Dom.Node :=
      .element ⟨name, attrs⟩ [.text "a"]
    let e : Dom.Element := ⟨"body", .ordinary, ⟨"table", []⟩,
      [.element ⟨"tr", []⟩ [cell "th" [("colspan", .text "2")], cell "td" [("rowspan", .text "0")]],
        .element ⟨"tr", []⟩ [cell "td" [("colspan", .text "oops"), ("rowspan", .text "3")],
          cell "td" [("colspan", .text " +1_0 ")], cell "td" [("colspan", .text "1")]]]⟩
    let o := { Options.default with trackTableColumns := true }
    let lower := lowerLevels o 5
    Dom.categoryOf o.metadata.wanted e.name = .table ∧ hasHeader e = true ∧
      ∃ rows colIds, (lowerElement o lower 0 e).result = .ok [.table
          (rows.insertIdx 1 (List.replicate 3 (.plain "---" CellMarks.none))) colIds] ∧
        List.Forall₂ (RowOf o lower 0) (e.named "tr") rows ∧
        colIds = some ["col-0", "col-1", "col-2"] ∧
        (∀ row ∈ rows.head?, ∀ cell ∈ row, ∀ id, cell.marks.colId = some id →
          id ∈ colIds.getD []) ∧
        (o.trackTableColumns = true → ∀ row ∈ e.named "tr", ∀ j < (cellElements row).length,
          cellStart row j < columnBound) := by
  intro cell e o lower
  have hcategory : Dom.categoryOf o.metadata.wanted e.name = .table := by decide
  have hheader : hasHeader e = true := by decide
  have hcolumns : headerColumns e = 3 := by decide
  have honly : ∀ row ∈ e.named "tr", ∀ cell ∈ cellElements row, cell.holdsOnlyText = true := by
    decide
  have hnear : ∀ row ∈ e.named "tr", ∀ j < (cellElements row).length, cellStart row j ≤ 11 := by
    decide
  refine ⟨hcategory, hheader, ?_⟩
  rcases lowerElement_table_columns o lower 0 e hcategory with
    ⟨rows, colIds, hresult, hrows, hids, hlisted, hfits⟩ | ⟨fault, _, hfault⟩
  · rw [hcolumns] at hids
    rw [hheader, if_pos rfl, hcolumns] at hresult
    exact ⟨rows, colIds, hresult, hrows, hids, hlisted, hfits⟩
  · rcases hfault.column_of_text honly with ⟨_, _, row, hrow, j, hcell, hfar⟩
    -- No number here comes near the bound.
    have hbound : 11 < columnBound := by decide +kernel
    have hstart := hnear row hrow j hcell
    omega

/-- A cell of as many columns as have a number, and two cells after it. The second of them begins in
    a column without a number, so with marked columns there is no table. -/
theorem lowerElement_table_far_column :
    let cell (attrs : List (String × Dom.AttrValue)) : Dom.Node :=
      .element ⟨"td", attrs⟩ [.text "a"]
    let widest := String.ofList (Number.naturalText (columnBound - 1))
    let e : Dom.Element := ⟨"body", .ordinary, ⟨"table", []⟩,
      [.element ⟨"tr", []⟩ [cell []],
        .element ⟨"tr", []⟩ [cell [("colspan", .text widest)], cell [], cell []]]⟩
    let o := { Options.default with trackTableColumns := true }
    o.WithoutElementHooks ∧ Dom.categoryOf o.metadata.wanted e.name = .table ∧
      (lowerElement o (lowerLevels o 5) 0 e).result = .error (.tooManyDigits none) := by
  intro cell widest e o
  have hcategory : Dom.categoryOf o.metadata.wanted e.name = .table := by decide
  have honly : ∀ row ∈ e.named "tr", ∀ cell ∈ cellElements row, cell.holdsOnlyText = true := by
    decide
  have hpos : 0 < columnBound := by decide +kernel
  have hnumber : ∀ n < columnBound,
      Number.readInteger? (Number.naturalText n) = some (n : Int) := by
    unfold columnBound
    exact fun _ hn => Number.readInteger?_naturalText hn
  have hread : Number.readInteger? widest.toList = some ((columnBound - 1 : Nat) : Int) := by
    rw [String.toList_ofList]
    exact hnumber _ (Nat.sub_lt hpos Nat.one_pos)
  -- The digits of the span are too many to be written out, so only what they read as is kept.
  clear_value widest
  have hspan : spanOf ⟨"td", [("colspan", .text widest)]⟩ "colspan" = max 1 (columnBound - 1) := by
    rw [spanOf_of_read rfl hread, Int.toNat_natCast]
  let row : Dom.Element := ⟨"table", .ordinary, ⟨"tr", []⟩,
    [cell [("colspan", .text widest)], cell [], cell []]⟩
  have hstart : cellStart row 2 = spanOf ⟨"td", [("colspan", .text widest)]⟩ "colspan" +
      (spanOf ⟨"td", []⟩ "colspan" + 0) := rfl
  have hone : spanOf ⟨"td", []⟩ "colspan" = 1 := rfl
  have hcount : (cellElements row).length = 3 := rfl
  have hrow : row ∈ e.named "tr" := List.mem_cons_of_mem _ List.mem_cons_self
  have hcell : 2 < (cellElements row).length := by omega
  have hfar : columnBound ≤ cellStart row 2 := by omega
  exact ⟨⟨rfl, rfl⟩, hcategory,
    lowerElement_table_too_far _ 0 hcategory honly rfl hrow hcell hfar⟩

end PageDistill
