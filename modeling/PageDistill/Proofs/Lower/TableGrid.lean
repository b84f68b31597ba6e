import Mathlib.Order.Bounds.Defs
import PageDistill.Proofs.Lower.TableColumns

/-!
# The Grid of a Table

Where the cells of a table stand when they are laid out with all their spans.

In the grid of a table a cell covers the columns that it spans, in its own row and in as many rows
below as it spans. Cells are laid one after the other, row by row, and each begins in the leftmost
column of its row that no cell covers yet: none before it in the row, and none of a row above that
reaches down.

Lowering counts columns along the row alone, and leaves out what reaches down from above. The two
agree as long as the column that lowering has come to is never covered from above
(`start_eq_cellStart_iff`). From the first cell that is kept from its place, all cells of the row
stand further to the right in the grid. What carries the induction along a row is that everything to
the left of some column is covered, and to the right of it only what is covered from above
(`Filled`).

The rows and cells of a table inside a cell count as those of the outer table here, as they do for
lowering. So this is the grid of a page where tables are not nested.

## Main definitions

* `Block`: A cell in the grid.
* `Covered`: Whether a cell covers a column.
* `leftmostFree`: The leftmost column that is not covered.
* `layRow`, `reaching`, `layRows`, `tableGrid`: The grid of a table.
* `CoveredFromAbove`, `CoveredBefore`: What is covered when a cell is laid.

## Theorems

* `leftmostFree_isLeast`: The leftmost column that is not covered is that.
* `Filled.lay`: What is filled once a cell is laid.
* `layRow_start`: The column in the grid, compared with the one that is counted along the row.
* `exists_block`: Every cell in the grid begins in the leftmost column that is not covered.
* `start_eq_cellStart_iff`: Where the two columns of a cell are the same.
* `lowerElement_table_grid`: The ids of the cells, compared with the grid.
-/

namespace PageDistill

open Markdown (Node Cell CellMarks)

/-- A cell in the grid of a table: the column it begins in, and the columns and rows it covers. -/
structure Block where
  start : Nat
  columns : Nat
  rows : Nat
  deriving DecidableEq, Repr

/-- Whether a cell covers a column, in the rows that it covers. -/
def Block.Covers (b : Block) (column : Nat) : Prop :=
  b.start ≤ column ∧ column < b.start + b.columns

instance (b : Block) (column : Nat) : Decidable (b.Covers column) :=
  inferInstanceAs (Decidable (_ ∧ _))

/-- Whether one of some cells covers a column. -/
def Covered (blocks : List Block) (column : Nat) : Prop := ∃ b ∈ blocks, b.Covers column

instance (blocks : List Block) (column : Nat) : Decidable (Covered blocks column) :=
  inferInstanceAs (Decidable (∃ b ∈ blocks, _))

/-- A column from which on nothing is covered. -/
def edge (blocks : List Block) : Nat :=
  (blocks.map fun b => b.start + b.columns).foldr max 0

/-- The leftmost column that is not covered. -/
def leftmostFree (blocks : List Block) : Nat :=
  ((List.range (edge blocks + 1)).find? fun column => !decide (Covered blocks column)).getD 0

/-- The cells of a row in the grid, when some columns are covered already. -/
def layRow : List Block → List Dom.Element → List Block
  | _, [] => []
  | taken, cell :: cells =>
    let block := ⟨leftmostFree taken, spanOf cell.tag "colspan", spanOf cell.tag "rowspan"⟩
    block :: layRow (taken ++ [block]) cells

/-- The cells of some rows that reach down into the row below them. -/
def reaching (lines : List (List Block)) : List Block :=
  (lines.mapIdx fun m line => line.filter fun b => lines.length < m + b.rows).flatten

/-- The cells of some rows in the grid. -/
def layRows (rows : List (List Dom.Element)) : List (List Block) :=
  rows.foldl (fun lines cells => lines ++ [layRow (reaching lines) cells]) []

/-- The grid of a table. -/
def tableGrid (e : Dom.Element) : List (List Block) := layRows ((e.named "tr").map cellElements)

/-- The entry of some rows at a place. -/
def entryAt {α : Type} (rows : List (List α)) (i j : Nat) : Option α :=
  rows[i]?.bind fun row => row[j]?

/-- Whether a cell of a row above covers a column of a row. -/
def CoveredFromAbove (grid : List (List Block)) (i column : Nat) : Prop :=
  ∃ m < i, ∃ k b, entryAt grid m k = some b ∧ i < m + b.rows ∧ b.Covers column

/-- Whether a column is covered before a cell of a row is laid: by a cell before it in the row, or
    by one above. -/
def CoveredBefore (grid : List (List Block)) (i j column : Nat) : Prop :=
  (∃ k < j, ∃ b, entryAt grid i k = some b ∧ b.Covers column) ∨ CoveredFromAbove grid i column

/-- What is covered is left of the edge. -/
theorem lt_edge_of_covered {blocks : List Block} {column : Nat} (h : Covered blocks column) :
    column < edge blocks := by
  rcases h with ⟨b, hb, _, hlt⟩
  unfold edge
  induction blocks with
  | nil => exact absurd hb List.not_mem_nil
  | cons first rest ih =>
      rw [List.map_cons, List.foldr_cons]
      rcases List.mem_cons.mp hb with rfl | hb
      · omega
      · have hrest := ih hb
        omega

theorem leftmostFree_isLeast (blocks : List Block) :
    IsLeast {column | ¬Covered blocks column} (leftmostFree blocks) := by
  have hedge : ¬Covered blocks (edge blocks) := fun h => Nat.lt_irrefl _ (lt_edge_of_covered h)
  unfold leftmostFree
  cases hfind : (List.range (edge blocks + 1)).find? fun column => !decide (Covered blocks column)
    with
  | none =>
      have hmem : edge blocks ∈ List.range (edge blocks + 1) := List.self_mem_range_succ
      have hcovered := List.find?_eq_none.mp hfind (edge blocks) hmem
      simp [hedge] at hcovered
  | some column =>
      rw [List.find?_range_eq_some] at hfind
      rcases hfind with ⟨hfree, _, hless⟩
      rw [Bool.not_eq_true', decide_eq_false_iff_not] at hfree
      refine ⟨hfree, fun other hother => Nat.not_lt.mp fun hlt => hother ?_⟩
      simpa using hless other hlt

-- What is left of some column is covered, and right of it only what is covered from above.
structure Filled (above taken : List Block) (position : Nat) : Prop where
  left : ∀ column < position, Covered taken column
  right : ∀ column, position ≤ column → (Covered taken column ↔ Covered above column)

theorem covered_append {blocks more : List Block} {column : Nat} :
    Covered (blocks ++ more) column ↔ Covered blocks column ∨ Covered more column := by
  unfold Covered
  simp only [List.mem_append, or_and_right, exists_or]

theorem covered_singleton {b : Block} {column : Nat} : Covered [b] column ↔ b.Covers column := by
  unfold Covered
  simp only [List.mem_singleton, exists_eq_left]

/-- A cell is laid where the row is not filled yet, and right at the end of what is filled unless
    that is covered from above. -/
theorem Filled.start {above taken : List Block} {position : Nat}
    (h : Filled above taken position) :
    position ≤ leftmostFree taken ∧
      (leftmostFree taken = position ↔ ¬Covered above position) := by
  rcases leftmostFree_isLeast taken with ⟨hfree, hleast⟩
  have hle : position ≤ leftmostFree taken := by
    by_contra hlt
    exact hfree (h.left _ (Nat.not_le.mp hlt))
  rw [← h.right position (Nat.le_refl _)]
  refine ⟨hle, fun heq => ?_, fun hposition => Nat.le_antisymm (hleast hposition) hle⟩
  rwa [← heq]

/-- A cell that is laid fills the row up to its end. -/
theorem Filled.lay {above taken : List Block} {position : Nat} (h : Filled above taken position)
    (columns rows : Nat) :
    Filled above (taken ++ [⟨leftmostFree taken, columns, rows⟩])
      (leftmostFree taken + columns) where
  left column hlt := by
    rw [covered_append, covered_singleton]
    by_cases hstart : column < leftmostFree taken
    · by_contra hnot
      rw [not_or] at hnot
      have hge := (leftmostFree_isLeast taken).2 hnot.1
      omega
    · exact Or.inr ⟨Nat.not_lt.mp hstart, hlt⟩
  right column hge := by
    have hle := h.start.1
    rw [covered_append, covered_singleton, h.right column (by omega)]
    refine or_iff_left fun hcovers => ?_
    have hend := hcovers.2
    change column < leftmostFree taken + columns at hend
    omega

/-- The column in the grid that a cell begins in, compared with the one that is counted along the
    row: it is no less, and it is the same if no column that was come to is covered from above. -/
theorem layRow_start {above taken : List Block} {position counted : Nat} {cells : List Dom.Element}
    (h : Filled above taken position) (hle : counted ≤ position) {j : Nat} {b : Block}
    (hj : (layRow taken cells)[j]? = some b) :
    counted + columnsOf (cells.take j) ≤ b.start ∧
      (b.start = counted + columnsOf (cells.take j) ↔
        counted = position ∧ ∀ m ≤ j, ¬Covered above (counted + columnsOf (cells.take m))) := by
  induction cells generalizing taken position counted j with
  | nil => exact absurd hj nofun
  | cons cell rest ih =>
      rcases h.start with ⟨hstart, hsame⟩
      have hfirst : leftmostFree taken = counted ↔ counted = position ∧ ¬Covered above counted := by
        constructor
        · intro heq
          have hposition : counted = position := by omega
          rw [hposition, ← hsame, heq]
          exact ⟨rfl, hposition⟩
        · rintro ⟨rfl, hfree⟩
          exact hsame.mpr hfree
      cases j with
      | zero =>
          rw [layRow, List.getElem?_cons_zero, Option.some.injEq] at hj
          rw [← hj]
          refine ⟨Nat.le_trans hle hstart, hfirst.trans (and_congr_right' ⟨fun hfree m hm => ?_,
            fun hall => hall 0 (Nat.le_refl 0)⟩)⟩
          rw [Nat.le_zero.mp hm]
          exact hfree
      | succ j =>
          -- A cell that is kept from its place takes all cells after it along, so what is counted
          -- never catches up with the grid.
          have hrest := ih (h.lay (spanOf cell.tag "colspan") (spanOf cell.tag "rowspan"))
            (Nat.add_le_add_right (Nat.le_trans hle hstart) _) hj
          rw [Nat.add_right_cancel_iff, @eq_comm _ counted, hfirst] at hrest
          rw [List.take_succ_cons, columnsOf, ← Nat.add_assoc]
          refine ⟨hrest.1, hrest.2.trans ?_⟩
          rw [and_assoc]
          refine and_congr_right' ⟨fun hall m hm => ?_,
            fun hall => ⟨hall 0 (Nat.zero_le _), fun m hm => ?_⟩⟩
          · cases m with
            | zero => exact hall.1
            | succ m =>
                rw [List.take_succ_cons, columnsOf, ← Nat.add_assoc]
                exact hall.2 m (Nat.le_of_succ_le_succ hm)
          · have hnext := hall (m + 1) (Nat.succ_le_succ hm)
            rwa [List.take_succ_cons, columnsOf, ← Nat.add_assoc] at hnext

/-- A cell of a row is laid behind those before it. -/
theorem getElem?_layRow (taken : List Block) {cells : List Dom.Element} {j : Nat}
    {cell : Dom.Element} (hj : cells[j]? = some cell) :
    (layRow taken cells)[j]? = some ⟨leftmostFree (taken ++ (layRow taken cells).take j),
      spanOf cell.tag "colspan", spanOf cell.tag "rowspan"⟩ := by
  induction cells generalizing taken j with
  | nil => exact absurd hj nofun
  | cons first rest ih =>
      rw [layRow]
      cases j with
      | zero =>
          rw [List.getElem?_cons_zero, Option.some.injEq] at hj
          rw [hj, List.take_zero, List.append_nil]
          rfl
      | succ j =>
          rw [List.getElem?_cons_succ, List.take_succ_cons, ih _ hj, List.append_assoc,
            List.singleton_append]

theorem layRows_concat (rows : List (List Dom.Element)) (cells : List Dom.Element) :
    layRows (rows ++ [cells]) = layRows rows ++ [layRow (reaching (layRows rows)) cells] :=
  List.foldl_concat _ _ _ _

theorem length_layRows (rows : List (List Dom.Element)) : (layRows rows).length = rows.length := by
  induction rows using List.reverseRecOn with
  | nil => rfl
  | append_singleton rows cells ih =>
      rw [layRows_concat, List.length_append, ih, List.length_append]
      rfl

/-- A row is laid below those above it, whatever rows follow. -/
theorem getElem?_layRows {rows : List (List Dom.Element)} {i : Nat} {cells : List Dom.Element}
    (hi : rows[i]? = some cells) :
    (layRows rows)[i]? = some (layRow (reaching ((layRows rows).take i)) cells) := by
  induction rows using List.reverseRecOn with
  | nil => exact absurd hi nofun
  | append_singleton rows last ih =>
      have hlength := length_layRows rows
      rw [layRows_concat]
      by_cases hlt : i < rows.length
      · rw [List.getElem?_append_left hlt] at hi
        rw [List.getElem?_append_left (by omega), List.take_append_of_le_length (by omega), ih hi]
      · have hend : i = rows.length := by
          have hbound := (List.getElem?_eq_some_iff.mp hi).1
          rw [List.length_append, List.length_singleton] at hbound
          omega
        rw [hend, List.getElem?_concat_length, Option.some.injEq] at hi
        rw [hend, ← hlength, List.getElem?_concat_length, List.take_left, hi]

theorem mem_reaching {lines : List (List Block)} {b : Block} :
    b ∈ reaching lines ↔
      ∃ m line, lines[m]? = some line ∧ b ∈ line ∧ lines.length < m + b.rows := by
  unfold reaching
  rw [List.mem_flatten]
  constructor
  · rintro ⟨reached, hreached, hb⟩
    rcases List.mem_mapIdx.mp hreached with ⟨m, hm, rfl⟩
    rcases List.mem_filter.mp hb with ⟨hb, hrows⟩
    exact ⟨m, lines[m], List.getElem?_eq_getElem hm, hb, of_decide_eq_true hrows⟩
  · rintro ⟨m, line, hline, hb, hrows⟩
    rcases List.getElem?_eq_some_iff.mp hline with ⟨hm, rfl⟩
    exact ⟨_, List.mem_mapIdx.mpr ⟨m, hm, rfl⟩, List.mem_filter.mpr ⟨hb, decide_eq_true hrows⟩⟩

theorem entryAt_eq_some_iff {α : Type} {rows : List (List α)} {i j : Nat} {a : α} :
    entryAt rows i j = some a ↔ ∃ row, rows[i]? = some row ∧ row[j]? = some a :=
  Option.bind_eq_some_iff

/-- What reaches down into a row is told by the whole grid. -/
theorem covered_reaching_iff {grid : List (List Block)} {i column : Nat} (hi : i ≤ grid.length) :
    Covered (reaching (grid.take i)) column ↔ CoveredFromAbove grid i column := by
  have hlength : (grid.take i).length = i := List.length_take_of_le hi
  constructor
  · rintro ⟨b, hb, hcovers⟩
    rcases mem_reaching.mp hb with ⟨m, line, hline, hb, hrows⟩
    rcases List.mem_iff_getElem?.mp hb with ⟨k, hk⟩
    -- A line that reaches down stands among the first ones.
    have hm : m < i := by
      have hbound := (List.getElem?_eq_some_iff.mp hline).1
      omega
    rw [List.getElem?_take_of_lt hm] at hline
    rw [hlength] at hrows
    exact ⟨m, hm, k, b, entryAt_eq_some_iff.mpr ⟨line, hline, hk⟩, hrows, hcovers⟩
  · rintro ⟨m, hm, k, b, hentry, hrows, hcovers⟩
    rcases entryAt_eq_some_iff.mp hentry with ⟨line, hline, hk⟩
    refine ⟨b, mem_reaching.mpr ⟨m, line, ?_, List.mem_of_getElem? hk, ?_⟩, hcovers⟩
    · rwa [List.getElem?_take_of_lt hm]
    · rwa [hlength]

theorem covered_take_iff {blocks : List Block} {j column : Nat} :
    Covered (blocks.take j) column ↔ ∃ k < j, ∃ b, blocks[k]? = some b ∧ b.Covers column := by
  constructor
  · rintro ⟨b, hb, hcovers⟩
    rcases List.mem_take_iff_getElem.mp hb with ⟨k, hk, rfl⟩
    exact ⟨k, by omega, blocks[k], List.getElem?_eq_getElem (by omega), hcovers⟩
  · rintro ⟨k, hk, b, hb, hcovers⟩
    rw [← List.getElem?_take_of_lt hk] at hb
    exact ⟨b, List.mem_of_getElem? hb, hcovers⟩

/-- What is covered when a cell of a row is laid, in terms of the grid. -/
theorem coveredBefore_iff {grid : List (List Block)} {blocks : List Block} {i : Nat}
    (hline : grid[i]? = some blocks) (j column : Nat) :
    CoveredBefore grid i j column ↔ Covered (reaching (grid.take i) ++ blocks.take j) column := by
  have hi : i ≤ grid.length := Nat.le_of_lt (List.getElem?_eq_some_iff.mp hline).1
  have hentry : ∀ k, entryAt grid i k = blocks[k]? := by
    intro k
    rw [entryAt, hline]
    rfl
  rw [covered_append, covered_reaching_iff hi, covered_take_iff, or_comm]
  unfold CoveredBefore
  simp only [hentry]

section

variable {e row : Dom.Element} {i j : Nat} (hrow : (e.named "tr")[i]? = some row)

include hrow

theorem getElem?_tableGrid :
    (tableGrid e)[i]? = some (layRow (reaching ((tableGrid e).take i)) (cellElements row)) := by
  refine getElem?_layRows ?_
  rw [List.getElem?_map, hrow]
  rfl

/-- Every cell of a table stands in the grid. It has its own spans there, and begins in the leftmost
    column that is covered neither by a cell before it in its row nor by one that reaches down. -/
theorem exists_block {element : Dom.Element} (hcell : (cellElements row)[j]? = some element) :
    ∃ b, entryAt (tableGrid e) i j = some b ∧ b.columns = spanOf element.tag "colspan" ∧
      b.rows = spanOf element.tag "rowspan" ∧
      IsLeast {column | ¬CoveredBefore (tableGrid e) i j column} b.start := by
  have hline := getElem?_tableGrid hrow
  have hblock := getElem?_layRow (reaching ((tableGrid e).take i)) hcell
  refine ⟨_, entryAt_eq_some_iff.mpr ⟨_, hline, hblock⟩, rfl, rfl, ?_⟩
  simp only [coveredBefore_iff hline]
  exact leftmostFree_isLeast _

/-- A cell begins no further to the left in the grid than by the spans before it, and it begins
    there exactly if no cell up to it is kept from its place by one that reaches down. -/
theorem start_eq_cellStart_iff {b : Block} (hb : entryAt (tableGrid e) i j = some b) :
    cellStart row j ≤ b.start ∧
      (b.start = cellStart row j ↔
        ∀ m ≤ j, ¬CoveredFromAbove (tableGrid e) i (cellStart row m)) := by
  have hline := getElem?_tableGrid hrow
  have hi := Nat.le_of_lt (List.getElem?_eq_some_iff.mp hline).1
  rw [entryAt, hline] at hb
  have hfilled : Filled (reaching ((tableGrid e).take i)) (reaching ((tableGrid e).take i)) 0 :=
    ⟨fun _ hlt => absurd hlt (Nat.not_lt_zero _), fun _ _ => Iff.rfl⟩
  have hstart := layRow_start hfilled (Nat.le_refl 0) hb
  simp only [Nat.zero_add, true_and, covered_reaching_iff hi] at hstart
  exact hstart

end

/-- A cell of the page is found among the lowered rows at its own place. -/
theorem exists_entry {o : Options} {lower : Descent} {indent : Int} {e : Dom.Element}
    {rows : List (List Cell)} (h : List.Forall₂ (RowOf o lower indent) (e.named "tr") rows)
    {i j : Nat} {row element : Dom.Element} (hrow : (e.named "tr")[i]? = some row)
    (hcell : (cellElements row)[j]? = some element) :
    ∃ cell, entryAt rows i j = some cell ∧
      CellOf o lower indent element (cellStart row j) cell := by
  rcases List.getElem?_eq_some_iff.mp hrow with ⟨hlt, rfl⟩
  have hlt' : i < rows.length := by rwa [← h.length_eq]
  rcases (h.get hlt hlt').cell j element hcell with ⟨cell, hentry, hcellOf⟩
  exact ⟨cell, entryAt_eq_some_iff.mpr ⟨_, List.getElem?_eq_getElem hlt', hentry⟩, hcellOf⟩

/-- The ids of the cells of a table, compared with its grid, when columns are marked. A cell stands
    in the grid in the leftmost column that is covered neither by a cell before it in its row nor by
    one that reaches down from above. The id names that column exactly if no cell of the row up to
    this one is kept from its place by a cell that reaches down, and a column further to the left
    otherwise. Where ids name the columns of the grid, they are the same for cells that begin in the
    same column, and for no others. -/
theorem lowerElement_table_grid (o : Options) (lower : Descent) (indent : Int) (e : Dom.Element)
    (hcategory : Dom.categoryOf o.metadata.wanted e.name = .table)
    (htrack : o.trackTableColumns = true) :
    (∃ rows colIds, (lowerElement o lower indent e).result = .ok [.table
          (if hasHeader e then
            rows.insertIdx 1 (List.replicate (headerColumns e) (.plain "---" CellMarks.none))
          else rows) colIds] ∧
        rows.length = (e.named "tr").length ∧
        (∀ i row, (e.named "tr")[i]? = some row → ∀ j element,
          (cellElements row)[j]? = some element → ∃ cell b,
            entryAt rows i j = some cell ∧ entryAt (tableGrid e) i j = some b ∧
            b.columns = spanOf element.tag "colspan" ∧ b.rows = spanOf element.tag "rowspan" ∧
            IsLeast {column | ¬CoveredBefore (tableGrid e) i j column} b.start ∧
            cell.marks.colId = some (columnId (cellStart row j)) ∧ cellStart row j ≤ b.start ∧
            (cell.marks.colId = some (columnId b.start) ↔
              ∀ m ≤ j, ¬CoveredFromAbove (tableGrid e) i (cellStart row m))) ∧
        ∀ i j cell b, entryAt rows i j = some cell → entryAt (tableGrid e) i j = some b →
          cell.marks.colId = some (columnId b.start) →
          ∀ i' j' cell' b', entryAt rows i' j' = some cell' →
            entryAt (tableGrid e) i' j' = some b' →
            cell'.marks.colId = some (columnId b'.start) →
            (cell.marks.colId = cell'.marks.colId ↔ b.start = b'.start)) ∨
      ∃ fault, (lowerElement o lower indent e).result = .error fault ∧
        TableFault o lower indent e fault := by
  rcases (lowerElement_table_fits lower indent hcategory).cases with
    ⟨_, hresult, rows, rfl, hrows, _⟩ | hfault
  · rw [tableOf_of_made hrows] at hresult
    refine Or.inl ⟨rows, _, hresult, hrows.length_eq.symm, fun i row hrow j element hcell => ?_,
      fun i j cell b _ _ hid i' j' cell' b' _ _ hid' => ?_⟩
    -- The cell has its block in the grid, and an entry in the table at the same place.
    · rcases exists_block hrow hcell with ⟨b, hb, hcolumns, hspanned, hleast⟩
      rcases start_eq_cellStart_iff hrow hb with ⟨hle, hsame⟩
      rcases exists_entry (hrows.imp fun _ _ h => h.rowOf) hrow hcell with ⟨cell, hentry, hcellOf⟩
      have hid := hcellOf.id
      rw [if_pos htrack] at hid
      refine ⟨cell, b, hentry, hb, hcolumns, hspanned, hleast, hid, hle, ?_⟩
      rw [hid, Option.some.injEq, ← hsame]
      exact ⟨fun h => (columnId_injective h).symm, fun h => congrArg columnId h.symm⟩
    · rw [hid, hid', Option.some.injEq]
      exact ⟨columnId_injective, congrArg columnId⟩
  · exact Or.inr hfault

/-- A cell of two columns and three rows reaches down behind the first cell of each row. So the
    second cell of the second row gets the id of a column that is covered, and stands further on. -/
theorem lowerElement_table_grid_reaching :
    let cell (attrs : List (String × Dom.AttrValue)) : Dom.Node :=
      .element ⟨"td", attrs⟩ [.text "a"]
    let first : Dom.Element := ⟨"table", .ordinary, ⟨"tr", []⟩,
      [cell [], cell [("colspan", .text "2"), ("rowspan", .text "3")], cell []]⟩
    let second : Dom.Element := ⟨"table", .ordinary, ⟨"tr", []⟩, [cell [], cell []]⟩
    let e : Dom.Element := ⟨"body", .ordinary, ⟨"table", []⟩,
      [.element first.tag first.nodes, .element second.tag second.nodes]⟩
    let o := { Options.default with trackTableColumns := true }
    Dom.categoryOf o.metadata.wanted e.name = .table ∧ o.trackTableColumns = true ∧
      tableGrid e = [[⟨0, 1, 1⟩, ⟨1, 2, 3⟩, ⟨3, 1, 1⟩], [⟨0, 1, 1⟩, ⟨3, 1, 1⟩]] ∧
      ∃ rows colIds left right,
        (lowerElement o (lowerLevels o 5) 0 e).result = .ok [.table rows colIds] ∧
        entryAt rows 1 0 = some left ∧ left.marks.colId = some (columnId 0) ∧
        entryAt rows 1 1 = some right ∧ right.marks.colId ≠ some (columnId 3) := by
  intro cell first second e o
  have hcategory : Dom.categoryOf o.metadata.wanted e.name = .table := by decide
  have hheader : hasHeader e = false := by decide
  have hgrid : tableGrid e = [[⟨0, 1, 1⟩, ⟨1, 2, 3⟩, ⟨3, 1, 1⟩], [⟨0, 1, 1⟩, ⟨3, 1, 1⟩]] := by
    decide
  have honly : ∀ row ∈ e.named "tr", ∀ cell ∈ cellElements row, cell.holdsOnlyText = true := by
    decide
  have hnear : ∀ row ∈ e.named "tr", ∀ j < (cellElements row).length, cellStart row j ≤ 3 := by
    decide
  refine ⟨hcategory, rfl, hgrid, ?_⟩
  rcases lowerElement_table_grid o (lowerLevels o 5) 0 e hcategory rfl with
    ⟨rows, colIds, hresult, _, hcells, _⟩ | ⟨fault, _, hfault⟩
  · rw [hheader, if_neg Bool.false_ne_true] at hresult
    rcases hcells 1 second rfl 0 _ rfl with ⟨left, _, hleft, _, _, _, _, hid, _, _⟩
    rcases hcells 1 second rfl 1 _ rfl with ⟨right, b, hright, hb, _, _, _, _, _, hsame⟩
    refine ⟨rows, colIds, left, right, hresult, hleft, hid, hright, fun h => ?_⟩
    -- The column that has been counted is covered by the cell above.
    have hcovered : CoveredFromAbove (tableGrid e) 1 (cellStart second 1) := by
      rw [hgrid]
      exact ⟨0, Nat.one_pos, 1, ⟨1, 2, 3⟩, rfl, by decide, by decide⟩
    have hstart : b.start = 3 := by
      rw [hgrid] at hb
      rw [← Option.some.inj hb]
    rw [hstart] at hsame
    exact hsame.mp h 1 (Nat.le_refl 1) hcovered
  · rcases hfault.column_of_text honly with ⟨_, _, row, hrow, j, hcell, hfar⟩
    have hbound : 3 < columnBound := by decide +kernel
    have hstart := hnear row hrow j hcell
    omega

/-- Below a cell of two rows, the only cell of the second row gets the id of the column that the
    cell above covers, and stands in the next column. -/
theorem lowerElement_table_rowspan :
    let cell (attrs : List (String × Dom.AttrValue)) (text : String) : Dom.Node :=
      .element ⟨"td", attrs⟩ [.text text]
    let e : Dom.Element := ⟨"body", .ordinary, ⟨"table", []⟩,
      [.element ⟨"tr", []⟩ [cell [("rowspan", .text "2")] "a", cell [] "b"],
        .element ⟨"tr", []⟩ [cell [] "c"]]⟩
    let o := { Options.default with trackTableColumns := true }
    o.WithoutElementHooks ∧ Dom.categoryOf o.metadata.wanted e.name = .table ∧
      tableGrid e = [[⟨0, 1, 2⟩, ⟨1, 1, 1⟩], [⟨1, 1, 1⟩]] ∧
      ∃ rows cell, (lowerElement o (lowerLevels o 5) 0 e).result =
          .ok [.table rows (some ["col-0", "col-1"])] ∧
        entryAt rows 1 0 = some cell ∧ cell.marks.colId = some "col-0" ∧ "col-0" ≠ columnId 1 := by
  intro cell e o
  have hcategory : Dom.categoryOf o.metadata.wanted e.name = .table := by decide
  have honly : ∀ row ∈ e.named "tr", ∀ cell ∈ cellElements row, cell.holdsOnlyText = true := by
    decide
  have hnear : ∀ row ∈ e.named "tr", ∀ j < (cellElements row).length, cellStart row j ≤ 1 := by
    decide
  have hbound : 1 < columnBound := by decide +kernel
  refine ⟨⟨rfl, rfl⟩, hcategory, by decide, ?_⟩
  rcases lowerElement_table_of_text (lowerLevels o 5) 0 hcategory honly fun row hrow j hj =>
    Nat.lt_of_le_of_lt (hnear row hrow j hj) hbound with ⟨rows, hresult, hrows⟩
  -- The cell of the second row starts where a cell from above still reaches.
  let second : Dom.Element := ⟨"table", .ordinary, ⟨"tr", []⟩, [cell [] "c"]⟩
  have hrow : (e.named "tr")[1]? = some second := rfl
  have helement : (cellElements second)[0]? =
    some ⟨"tr", .ordinary, ⟨"td", []⟩, [.text "c"]⟩ := rfl
  rcases exists_entry hrows hrow helement with ⟨c, hentry, hcell⟩
  have hheader : hasHeader e = false := by decide
  have hcolumns : headerColumns e = 2 := by decide
  have hids : (List.range 2).map columnId = ["col-0", "col-1"] := by decide
  have hstart : columnId (cellStart second 0) = "col-0" := by decide
  have hid := hcell.id
  rw [hheader, if_neg Bool.false_ne_true, if_pos rfl, hcolumns, hids] at hresult
  rw [if_pos rfl, hstart] at hid
  exact ⟨rows, c, hresult, hentry, hid, by decide⟩

end PageDistill
