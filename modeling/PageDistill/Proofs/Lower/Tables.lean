import PageDistill.Proofs.Lower.WellFormed
import PageDistill.Proofs.Markdown.Delimiters

/-!
# Lowered Tables

The lines that are written for a table of a page.

A table is lowered row by row, and each cell gets a mark for every span of two or more. So a
lowered row is as wide as the cells of the page say, and the width of a rendered table can be read
off the page: it is `tableColumns`, the greatest number of columns in a row. The separator below a
header is as wide as the header, which may be less. Its line is then filled up like that of any
other short row, and the fillers do not hold the dashes that Markdown asks for in each column of a
header. `lowerElement_table_separator` says exactly how many columns have dashes.

What the cells hold is again a matter of text alone. A cell that held only text is escaped and has
no stray pipes. A cell that held more is rendered first, and texts in it are not escaped, so a pipe
after two backslashes adds a column. `lowerElement_table_delimiters` counts the delimiters of each
line, and the stray pipes are the only ones too many.

## Main definitions

* `tableColumns`: The number of columns of a table.

## Theorems

* `lineCells_separatorRow`: What stands on the line of a separator.
* `MadeCells.rowWidth_eq`: A lowered row is as wide as its cells say.
* `tableWidth_separated`: A separator does not widen a table.
* `tableWidth_made`: The width of a rendered table.
* `lowerElement_table_delimiters`: The delimiters of the lines of a table.
* `lowerElement_table_separator`: The line below a header.
-/

namespace PageDistill

open Markdown (Node Cell CellMarks)

/-- The number of columns of a table: the greatest number in a row. -/
def tableColumns (e : Dom.Element) : Nat :=
  ((e.named "tr").map fun row => columnsOf (cellElements row)).foldr max 0

/-- A separator has a piece for each of its columns, with dashes in it. -/
theorem rowPieces_separatorRow (indent : Int) (width : Nat) :
    Markdown.rowPieces indent (separatorRow width) =
      List.replicate width " --- ".toList := by
  induction width with
  | zero => rfl
  | succ width ih =>
      rw [separatorRow, List.replicate_succ, Markdown.rowPieces]
      rw [separatorRow] at ih
      rw [ih]
      rfl

theorem rowWidth_separatorRow (width : Nat) : Markdown.rowWidth (separatorRow width) = width := by
  induction width with
  | zero => rfl
  | succ width ih =>
      rw [separatorRow] at ih
      rw [separatorRow, List.replicate_succ, Markdown.rowWidth, ih, Cell.marks]
      change 1 + (width : Int) = _
      omega

theorem separatorRow_proper (width : Nat) : ∀ cell ∈ separatorRow width, cell.marks.Proper := by
  intro cell hcell
  rw [List.eq_of_mem_replicate hcell]
  exact ⟨nofun, nofun⟩

/-- The line of a separator has dashes for its own columns, and is empty in the further columns
    of the table. -/
theorem lineCells_separatorRow (indent : Int) {columns width : Nat} (hpos : 0 < width)
    (hle : columns ≤ width) :
    Markdown.lineCells (Markdown.tableLine width (separatorRow columns)
        (Markdown.rowPieces indent (separatorRow columns))) =
      List.replicate columns " --- ".toList ++ List.replicate (width - columns) "  ".toList := by
  have hwidth := rowWidth_separatorRow columns
  rw [Markdown.lineCells_tableLine (separatorRow_proper columns) indent (by omega) (by omega)
    fun cell hcell => by rw [List.eq_of_mem_replicate hcell]; rfl,
    rowPieces_separatorRow, hwidth, Int.toNat_sub]
  rfl

/-- Where a separator is too short, something is missing. -/
theorem all_dashes_iff (columns width : Nat) :
    (∀ cell ∈ List.replicate columns " --- ".toList ++
        List.replicate (width - columns) "  ".toList, cell = " --- ".toList) ↔
      width ≤ columns := by
  rw [List.forall_mem_append]
  constructor
  · rintro ⟨_, hfill⟩
    by_contra hless
    exact absurd (hfill _ (List.mem_replicate.mpr ⟨by omega, rfl⟩)) (by decide)
  · intro hfull
    rw [Nat.sub_eq_zero_of_le hfull]
    exact ⟨fun cell hcell => List.eq_of_mem_replicate hcell,
      fun cell hcell => absurd hcell List.not_mem_nil⟩

theorem one_le_spanOf (tag : Dom.Tag) (name : String) : 1 ≤ spanOf tag name := by
  unfold spanOf
  cases tag.text? name with
  | none => exact Nat.le_refl 1
  | some value => exact Nat.le_max_left 1 _

theorem width_marksAt (o : Options) (position : Nat) (cell : Dom.Element) :
    (marksAt o position cell).width = spanOf cell.tag "colspan" := by
  have hspan := one_le_spanOf cell.tag "colspan"
  unfold CellMarks.width marksAt spanMark
  by_cases hwide : 1 < spanOf cell.tag "colspan"
  · simp only [if_pos hwide]
    exact if_neg (by omega)
  · simp only [if_neg hwide]
    omega

/-- A cell takes a column at least. -/
theorem columnsOf_pos {cells : List Dom.Element} (h : cells ≠ []) : 0 < columnsOf cells := by
  cases cells with
  | nil => exact absurd rfl h
  | cons cell _ =>
      have hspan := one_le_spanOf cell.tag "colspan"
      rw [columnsOf]
      omega

theorem columnsOf_header_pos {row : Dom.Element} (h : (row.first? "th").isSome = true) :
    0 < columnsOf (cellElements row) := by
  rw [Dom.Element.first?, List.find?_isSome] at h
  rcases h with ⟨cell, hcell, hname⟩
  refine columnsOf_pos (List.ne_nil_of_mem (List.mem_filter.mpr ⟨hcell, ?_⟩))
  rw [hname, Bool.true_or]

theorem toList_columnId (position : Nat) :
    (columnId position).toList = "col-".toList ++ Number.naturalText position := by
  rw [columnId, String.toList_append]
  exact congrArg _ String.toList_ofList

/-- The id of a column holds nothing but its letters and digits. -/
theorem not_mem_columnId (position : Nat) (c : Char) (hletter : c ∉ "col-".toList)
    (hdigit : c.isDigit = false) : c ∉ (columnId position).toList := by
  rw [toList_columnId, List.mem_append, not_or]
  exact ⟨hletter, Number.not_mem_naturalText position hdigit⟩

theorem colId_marksAt {o : Options} {position : Nat} {cell : Dom.Element} {id : String}
    (h : (marksAt o position cell).colId = some id) : id = columnId position := by
  unfold marksAt at h
  by_cases htrack : o.trackTableColumns = true
  · rw [if_pos htrack, Option.some.injEq] at h
    exact h.symm
  · rw [if_neg htrack] at h
    exact absurd h nofun

theorem marksAt_proper (o : Options) (position : Nat) (cell : Dom.Element) :
    (marksAt o position cell).Proper where
  span n hn := by
    have hmark := spanMark_ge _ n hn
    omega
  column id hid := by
    rw [colId_marksAt hid]
    exact ⟨not_mem_columnId position '|' (by decide) rfl,
      not_mem_columnId position '\n' (by decide) rfl⟩

section

variable {o : Options} {made : Dom.Element → List Node → Prop} {position : Nat}
  {elements : List Dom.Element} {cells : List Cell}

/-- A lowered row is as wide as its cells say. -/
theorem MadeCells.rowWidth_eq (h : MadeCells o made position elements cells) :
    Markdown.rowWidth cells = columnsOf elements := by
  induction h with
  | nil => rfl
  | plain position cell _ _ ih | rich position cell _ _ _ _ ih =>
      rw [Markdown.rowWidth, ih, columnsOf, Cell.marks, width_marksAt]
      omega

theorem MadeCells.proper (h : MadeCells o made position elements cells) :
    ∀ cell ∈ cells, cell.marks.Proper :=
  h.forall_cell (fun d _ _ position => marksAt_proper o position d)
    fun d _ _ _ position => marksAt_proper o position d

/-- An escaped text has no stray pipes. -/
theorem strayPipes_escaped (indent : Int) (text : List Char) (marks : CellMarks) :
    (Cell.plain (String.ofList (Markdown.escape text)) marks).strayPipes indent = 0 := by
  rw [Cell.strayPipes, String.toList_ofList]
  exact Markdown.strayPipes_escape _

/-- So a cell that held only text has none. -/
theorem MadeCells.strayPipes_plain (h : MadeCells o made position elements cells) (indent : Int) :
    ∀ text marks, Cell.plain text marks ∈ cells →
      (Cell.plain text marks).strayPipes indent = 0 := by
  have hall : ∀ cell ∈ cells, ∀ text marks, cell = .plain text marks →
      (Cell.plain text marks).strayPipes indent = 0 := by
    refine h.forall_cell (fun d _ _ position text marks heq => ?_) fun _ _ _ _ _ _ _ heq => ?_
    · rw [← heq]
      exact strayPipes_escaped indent _ _
    · exact absurd heq nofun
  exact fun text marks hcell => hall _ hcell text marks rfl

end

/-- The width of a table when no row is of negative width. -/
theorem tableWidth_cons {row : List Cell} {rows : List (List Cell)}
    (h : 0 ≤ Markdown.rowWidth row) :
    Markdown.tableWidth (row :: rows) = max (Markdown.rowWidth row) (Markdown.tableWidth rows) := by
  cases rows with
  | nil => rw [Markdown.tableWidth, Markdown.tableWidth, Int.max_eq_left h]
  | cons next others =>
      rw [Markdown.tableWidth]
      exact List.cons_ne_nil next others

/-- A separator is as wide as the row above it, so it does not widen a table. -/
theorem tableWidth_separated (header : Bool) (rows : List (List Cell))
    (h : ∀ row ∈ rows, 0 ≤ Markdown.rowWidth row) :
    Markdown.tableWidth (separated header rows) = Markdown.tableWidth rows := by
  cases rows with
  | nil => rfl
  | cons first others =>
      rw [separated]
      by_cases hheader : header = true
      · have hfirst := h first List.mem_cons_self
        have hwidth := rowWidth_separatorRow (Markdown.rowWidth first).toNat
        rw [if_pos hheader, tableWidth_cons hfirst, tableWidth_cons (by omega),
          tableWidth_cons hfirst]
        omega
      · rw [if_neg hheader]

section

variable {o : Options} {made : Dom.Element → List Node → Prop} {e : Dom.Element}
  {rows : List (List Cell)} (h : MadeRows o made e rows)

include h

/-- As wide as its rows on the page say, with a separator or without. -/
theorem tableWidth_made :
    Markdown.tableWidth (separated (hasHeader e) rows) = tableColumns e := by
  have hwidths : ∀ row ∈ rows, 0 ≤ Markdown.rowWidth row := by
    intro row hrow
    rcases Traced.exists_of_mem_right h hrow with ⟨element, _, hcells⟩
    have hwidth := hcells.rowWidth_eq
    omega
  rw [tableWidth_separated _ rows hwidths]
  unfold tableColumns
  unfold MadeRows at h
  -- From here on the widths are those of the rows alone, one after another.
  generalize e.named "tr" = elements at h
  induction h with
  | nil => rfl
  | cons hcells _ ih =>
      have hwidth := hcells.rowWidth_eq
      rw [tableWidth_cons (by omega), ih fun row hrow => hwidths row (List.mem_cons_of_mem _ hrow),
        hwidth, List.map_cons, List.foldr_cons]
      omega

theorem proper_made : ∀ row ∈ separated (hasHeader e) rows, ∀ cell ∈ row, cell.marks.Proper := by
  intro row hrow cell hcell
  rcases mem_separated hrow with hrow | ⟨width, rfl⟩
  · rcases Traced.exists_of_mem_right h hrow with ⟨element, _, hcells⟩
    exact hcells.proper cell hcell
  · exact separatorRow_proper width cell hcell

theorem strayPipes_made (indent : Int) : ∀ row ∈ separated (hasHeader e) rows, ∀ text marks,
    Cell.plain text marks ∈ row → (Cell.plain text marks).strayPipes indent = 0 := by
  intro row hrow text marks hcell
  rcases mem_separated hrow with hrow | ⟨width, rfl⟩
  · rcases Traced.exists_of_mem_right h hrow with ⟨element, _, hcells⟩
    exact hcells.strayPipes_plain indent text marks hcell
  · rw [List.eq_of_mem_replicate hcell]
    rfl

end

/-- An element that is a table makes one node, by the rule for tables. -/
theorem lowerElement_ends_table {o : Options} {good : Node → Prop} {bad : ConversionError → Prop}
    {lower : Descent} {indent : Int} {e : Dom.Element}
    (hcategory : Dom.categoryOf o.metadata.wanted e.name = .table)
    (h : (lowerTable o lower indent e).Ends good bad) :
    (lowerElement o lower indent e).Ends (fun nodes => ∃ node, nodes = [node] ∧ good node) bad := by
  unfold lowerElement
  refine (Traced.Ends.debugIf _ _).bind fun _ _ => ?_
  rw [hcategory]
  exact h.bind fun node hnode => Traced.Ends.pure ⟨node, rfl, hnode⟩

/-- Such an element is lowered to its rows, with a separator below a header. -/
theorem lowerElement_of_table {o : Options} {made : Dom.Element → List Node → Prop}
    {bad : ConversionError → Prop} {lower : Descent} {indent : Int} {e : Dom.Element}
    (hcategory : Dom.categoryOf o.metadata.wanted e.name = .table)
    (h : (lowerTable o lower indent e).Ends
      (fun node => ∃ rows, MadeRows o made e rows ∧ node = tableOf o e rows) bad) :
    (lowerElement o lower indent e).Ends
      (fun nodes => ∃ rows colIds, nodes = [.table (separated (hasHeader e) rows) colIds] ∧
        MadeRows o made e rows) bad := by
  refine (lowerElement_ends_table hcategory h).mono fun nodes hnodes => ?_
  rcases hnodes with ⟨_, rfl, rows, hrows, rfl⟩
  rcases tableOf_eq o e rows with ⟨colIds, heq⟩
  exact ⟨rows, colIds, by rw [heq], hrows⟩

/-- What is known of a lowered table, when nothing is asked of the nodes in its cells. -/
theorem lowerElement_table_ends {o : Options} (helement : o.WithoutElementHooks) (levels : Nat)
    (indent : Int) {e : Dom.Element}
    (hcategory : Dom.categoryOf o.metadata.wanted e.name = .table) :
    (lowerElement o (lowerLevels o levels) indent e).Ends
      (fun nodes => ∃ rows colIds, nodes = [.table (separated (hasHeader e) rows) colIds] ∧
        MadeRows o (fun _ _ => True) e rows)
      (LoweringFault o e.descendants) := by
  have hlow : ∀ indent, ∀ d ∈ e.descendants, (lowerLevels o levels indent d).Ends
      (fun _ => True) (LoweringFault o e.descendants) := by
    intro indent d hd
    have hends := lowerLevels_made (fun _ _ _ => True) helement (fun _ => True.intro)
      (fun _ _ _ _ => True.intro) levels indent d
    exact hends.mono_bad fun _ => LoweringFault.mono (Dom.Element.descendants_subset e d hd)
  exact lowerElement_of_table hcategory
    (lowerTable_made (fun _ h => h) indent (List.Subset.refl _) hlow)

/-- The delimiters in the lines of a table without hooks. There is one more of them than the table
    has columns, and the stray pipes of the cells besides, which only cells with more than text
    have. The lines come row by row, with one for the separator; without columns there is no
    text. -/
theorem lowerElement_table_delimiters (o : Options) (helement : o.WithoutElementHooks)
    (hnode : o.WithoutNodeHooks) (levels : Nat) (indent start : Int) (e : Dom.Element)
    (hcategory : Dom.categoryOf o.metadata.wanted e.name = .table) :
    (∃ rows colIds text,
        (lowerElement o (lowerLevels o levels) indent e).result = .ok [.table rows colIds] ∧
        (Node.table rows colIds).body o start = .ok text ∧
        (tableColumns e = 0 → text = []) ∧
        (0 < tableColumns e → List.Forall₂ (fun row line =>
          Markdown.delimiters line = tableColumns e + 1 + (row.map (Cell.strayPipes start)).sum)
          rows (Text.splitOn '\n' text)) ∧
        ∀ row ∈ rows, ∀ text marks, Cell.plain text marks ∈ row →
          (Cell.plain text marks).strayPipes start = 0) ∨
      ∃ fault, (lowerElement o (lowerLevels o levels) indent e).result = .error fault ∧
        LoweringFault o e.descendants fault := by
  rcases (lowerElement_table_ends helement levels indent hcategory).cases with
    ⟨_, hresult, rows, colIds, rfl, hmade⟩ | hfault
  · have hwidth := tableWidth_made hmade
    have hproper := proper_made hmade
    refine Or.inl ⟨_, colIds, _, hresult, Node.body_unhooked hnode start _, fun hzero => ?_,
      fun hpos => ?_, strayPipes_made hmade start⟩
    · rw [Node.block, hwidth, hzero]
      rfl
    · rw [Markdown.splitOn_block_table hproper start colIds (by omega),
        List.forall₂_map_right_iff, List.forall₂_same]
      intro row hrow
      have hle := Markdown.rowWidth_le_tableWidth _ row hrow
      have hcount := Markdown.delimiters_tableLine (hproper row hrow) start (by omega) hle
      omega
  · exact Or.inr hfault

/-- A table of two columns with a header, a cell of two columns, and cells that hold a list and bold
    text with a pipe after one backslash. With these options nothing can fail. -/
theorem lowerElement_table_delimiters_mixed :
    let plain (name : String) (nodes : List Dom.Node) : Dom.Node := .element ⟨name, []⟩ nodes
    let e : Dom.Element := ⟨"body", .ordinary, ⟨"table", []⟩,
      [plain "tr" [.element ⟨"th", [("colspan", .text "2")]⟩ [.text "a\\\\|b"]],
        plain "tr" [plain "td" [plain "ul" [plain "li" [.text "x"]]],
          plain "td" [plain "b" [.text "c\\|d"]]],
        plain "tr" []]⟩
    let o := Options.default
    o.WithoutElementHooks ∧ o.WithoutNodeHooks ∧
      Dom.categoryOf o.metadata.wanted e.name = .table ∧ tableColumns e = 2 ∧
      ∃ rows colIds text,
        (lowerElement o (lowerLevels o 5) 0 e).result = .ok [.table rows colIds] ∧
        (Node.table rows colIds).body o 1 = .ok text ∧
        List.Forall₂ (fun row line =>
          Markdown.delimiters line = 3 + (row.map (Cell.strayPipes 1)).sum)
          rows (Text.splitOn '\n' text) ∧
        ∀ row ∈ rows, ∀ text marks, Cell.plain text marks ∈ row →
          (Cell.plain text marks).strayPipes 1 = 0 := by
  intro plain e o
  have helement : o.WithoutElementHooks := ⟨rfl, rfl⟩
  have hnode : o.WithoutNodeHooks := ⟨rfl, rfl⟩
  have hcategory : Dom.categoryOf o.metadata.wanted e.name = .table := by decide
  have hcolumns : tableColumns e = 2 := by decide
  refine ⟨helement, hnode, hcategory, hcolumns, ?_⟩
  rcases lowerElement_table_delimiters o helement hnode 5 0 1 e hcategory with
    ⟨rows, colIds, text, hresult, htext, _, hlines, hplain⟩ | ⟨_, _, hfault⟩
  · rw [hcolumns] at hlines
    exact ⟨rows, colIds, text, hresult, htext, hlines (by decide), hplain⟩
  · exact (hfault.false_of_plain rfl nofun rfl rfl).elim

/-- Bold text with a pipe after two backslashes. The table has one column, and its line has three
    delimiters. -/
theorem lowerElement_table_two_backslashes :
    let plain (name : String) (nodes : List Dom.Node) : Dom.Node := .element ⟨name, []⟩ nodes
    let e : Dom.Element := ⟨"body", .ordinary, ⟨"table", []⟩,
      [plain "tr" [plain "td" [plain "b" [.text "a\\\\|b"]]]]⟩
    let node : Node := .table [[.rich [.emphasis .bold [.text "a\\\\|b"]] CellMarks.none]] none
    let line := "| **a\\\\|b** |".toList
    tableColumns e = 1 ∧
      (lowerElement Options.default (lowerLevels Options.default 2) 0 e).result = .ok [node] ∧
      node.body Options.default 0 = .ok line ∧ Text.splitOn '\n' line = [line] ∧
      Markdown.delimiters line = 3 :=
  ⟨by decide, rfl, by rfl, by decide, by decide⟩

theorem tableColumns_le_iff (e : Dom.Element) (n : Nat) :
    tableColumns e ≤ n ↔ ∀ row ∈ e.named "tr", columnsOf (cellElements row) ≤ n := by
  unfold tableColumns
  induction e.named "tr" with
  | nil => simp
  | cons row rows ih =>
      rw [List.map_cons, List.foldr_cons, Nat.max_le, ih, List.forall_mem_cons]

/-- The line below a header, in a table without hooks. It has dashes for the columns of the header,
    of which there is at least one, and is empty in the further columns of the table; so dashes
    stand in all of it exactly if no row is wider than the header. -/
theorem lowerElement_table_separator (o : Options) (helement : o.WithoutElementHooks)
    (hnode : o.WithoutNodeHooks) (levels : Nat) (indent start : Int) (e header : Dom.Element)
    (others : List Dom.Element) (hcategory : Dom.categoryOf o.metadata.wanted e.name = .table)
    (hrows : e.named "tr" = header :: others) (hheader : (header.first? "th").isSome = true) :
    (∃ node text first second rest,
        (lowerElement o (lowerLevels o levels) indent e).result = .ok [node] ∧
        node.body o start = .ok text ∧
        Text.splitOn '\n' text = first :: second :: rest ∧ rest.length = others.length ∧
        (∃ pieces, pieces.length = tableColumns e ∧
          first = '|' :: (Text.joinWith ['|'] pieces ++ ['|'])) ∧
        Markdown.lineCells second =
          List.replicate (columnsOf (cellElements header)) " --- ".toList ++
            List.replicate (tableColumns e - columnsOf (cellElements header)) "  ".toList ∧
        0 < columnsOf (cellElements header) ∧ columnsOf (cellElements header) ≤ tableColumns e ∧
        ((∀ cell ∈ Markdown.lineCells second, cell = " --- ".toList) ↔
          ∀ row ∈ others, columnsOf (cellElements row) ≤ columnsOf (cellElements header))) ∨
      ∃ fault, (lowerElement o (lowerLevels o levels) indent e).result = .error fault ∧
        LoweringFault o e.descendants fault := by
  have hheaded : hasHeader e = true := by
    unfold hasHeader
    rw [hrows]
    exact hheader
  rcases (lowerElement_table_ends helement levels indent hcategory).cases with
    ⟨_, hresult, rows, colIds, rfl, hmade⟩ | hfault
  · have hpos := columnsOf_header_pos hheader
    have hall := (tableColumns_le_iff e (tableColumns e)).mp (Nat.le_refl _)
    have hle := hall header (by rw [hrows]; exact List.mem_cons_self)
    have hwidth := tableWidth_made hmade
    have hproper := proper_made hmade
    unfold MadeRows at hmade
    rw [hrows] at hmade
    rcases List.forall₂_cons_left_iff.mp hmade with ⟨first, rest, hfirst, hrest, rfl⟩
    have hcolumns := hfirst.rowWidth_eq
    -- The separator stands behind the header, with as many columns as the header has.
    have hseparated : separated (hasHeader e) (first :: rest) =
        first :: separatorRow (columnsOf (cellElements header)) :: rest := by
      rw [separated, if_pos hheaded, hcolumns, Int.toNat_natCast]
    rw [hseparated] at hwidth hproper hresult
    have hlines := Markdown.splitOn_block_table hproper start colIds (by omega)
    rw [hwidth, List.map_cons, List.map_cons] at hlines
    have hfilled := Markdown.length_filledPieces (hproper first List.mem_cons_self) start
      (hwidth ▸ Markdown.rowWidth_le_tableWidth _ first List.mem_cons_self)
    have hsecond := lineCells_separatorRow start (Nat.lt_of_lt_of_le hpos hle) hle
    -- It fills the table as soon as no other row is wider.
    have hcomplete : tableColumns e ≤ columnsOf (cellElements header) ↔
        ∀ row ∈ others, columnsOf (cellElements row) ≤ columnsOf (cellElements header) := by
      rw [tableColumns_le_iff, hrows, List.forall_mem_cons]
      exact and_iff_right (Nat.le_refl _)
    refine Or.inl ⟨_, _, _, _, _, hresult, Node.body_unhooked hnode start _, hlines, ?_,
      ⟨_, Int.ofNat.inj hfilled, rfl⟩, hsecond, hpos, hle, ?_⟩
    · rw [List.length_map, ← hrest.length_eq]
    · rw [hsecond, ← hcomplete]
      exact all_dashes_iff _ _
  · exact Or.inr hfault

/-- A header of two columns and a row of three, in a cell of which stands a link. With these options
    nothing can fail. -/
theorem lowerElement_table_separator_linked :
    let plain (name : String) (nodes : List Dom.Node) : Dom.Node := .element ⟨name, []⟩ nodes
    let header : Dom.Element := ⟨"table", .ordinary, ⟨"tr", []⟩,
      [.element ⟨"th", [("colspan", .text "2")]⟩ [.text "a"]]⟩
    let other : Dom.Element := ⟨"table", .ordinary, ⟨"tr", []⟩,
      [plain "td" [.text "b"], plain "td" [plain "a" [.text "c"]], plain "td" []]⟩
    let e : Dom.Element := ⟨"body", .ordinary, ⟨"table", []⟩,
      [.element header.tag header.nodes, .element other.tag other.nodes]⟩
    let o := Options.default
    o.WithoutElementHooks ∧ o.WithoutNodeHooks ∧
      Dom.categoryOf o.metadata.wanted e.name = .table ∧ e.named "tr" = [header, other] ∧
      (header.first? "th").isSome = true ∧
      ∃ node text first second rest,
        (lowerElement o (lowerLevels o 5) 0 e).result = .ok [node] ∧
        node.body o 0 = .ok text ∧
        Text.splitOn '\n' text = first :: second :: rest ∧ rest.length = 1 ∧
        (∃ pieces, pieces.length = 3 ∧ first = '|' :: (Text.joinWith ['|'] pieces ++ ['|'])) ∧
        Markdown.lineCells second = [" --- ".toList, " --- ".toList, "  ".toList] ∧
        ¬∀ cell ∈ Markdown.lineCells second, cell = " --- ".toList := by
  intro plain header other e o
  have helement : o.WithoutElementHooks := ⟨rfl, rfl⟩
  have hnode : o.WithoutNodeHooks := ⟨rfl, rfl⟩
  have hcategory : Dom.categoryOf o.metadata.wanted e.name = .table := by decide
  have hrows : e.named "tr" = [header, other] := rfl
  have hheader : (header.first? "th").isSome = true := by decide
  have hcolumns : tableColumns e = 3 := by decide
  -- The other row has a column more than the header.
  have hwide : ¬∀ row ∈ [other], columnsOf (cellElements row) ≤ columnsOf (cellElements header) :=
    fun h => absurd (h other List.mem_cons_self) (by decide)
  refine ⟨helement, hnode, hcategory, hrows, hheader, ?_⟩
  rcases lowerElement_table_separator o helement hnode 5 0 0 e header [other] hcategory hrows
    hheader with
    ⟨node, text, first, second, rest, hresult, htext, hlines, hlength, hfirst, hsecond, _, _,
      hcomplete⟩ | ⟨_, _, hfault⟩
  · rw [hcolumns] at hfirst hsecond
    exact ⟨node, text, first, second, rest, hresult, htext, hlines, hlength, hfirst, hsecond,
      fun h => hwide (hcomplete.mp h)⟩
  · exact (hfault.false_of_plain rfl nofun rfl rfl).elim

/-- A header of one column and a row of two. The line below the header has a column without
    dashes. -/
theorem lowerElement_table_narrow_header :
    let plain (name : String) (nodes : List Dom.Node) : Dom.Node := .element ⟨name, []⟩ nodes
    let e : Dom.Element := ⟨"body", .ordinary, ⟨"table", []⟩,
      [plain "tr" [plain "th" [.text "a"]],
        plain "tr" [plain "td" [.text "b"], plain "td" [.text "c"]]]⟩
    let cell (text : String) : Cell := .plain text CellMarks.none
    let node : Node := .table [[cell "a"], [cell "---"], [cell "b", cell "c"]] none
    hasHeader e = true ∧ tableColumns e = 2 ∧
      (lowerElement Options.default (lowerLevels Options.default 2) 0 e).result = .ok [node] ∧
      node.body Options.default 0 = .ok "| a |  |\n| --- |  |\n| b | c |".toList ∧
      Markdown.lineCells "| a |  |".toList = [" a ".toList, "  ".toList] ∧
      Markdown.lineCells "| --- |  |".toList = [" --- ".toList, "  ".toList] :=
  ⟨by decide, by decide, rfl, by rfl, by decide, by decide⟩

end PageDistill
