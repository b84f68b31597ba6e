import Mathlib.Data.List.Forall2
import PageDistill.Proofs.Markdown.Unhooked

/-!
# The Lines of a Table

Every line of a rendered table has the same number of delimiters, whatever its cells hold.

A line is made of pieces with pipes between them. What a cell holds is arbitrary, since it
may be the rendering of any nodes, so two things have to be kept out of a piece: a line end
would start a new line, and a bare pipe would start a new piece. The first is replaced when
the content is brought onto one line, and the second gets a backslash. Both are facts about
the text of a cell and do not depend on where it came from, so no induction on the tree is
needed: `renderRow` is opened only to count its pieces.

A pipe is bare when no backslash stands right before it. The pipes between pieces are bare
because every piece ends in a space. This is also what keeps a backslash at the end of a
cell from reaching the pipe after it.

The number of pieces of a row is its width, and the fillers make up what is missing to the
width of the table, so a line has one bare pipe more than the table has columns. Spans of
less than one would break the first half, which is why they are excluded.

## Main definitions

* `barePipes`: The number of pipes without a backslash right before them.
* `IsPiece`: What stands between two delimiters.
* `CellMarks.Proper`: Marks that stay inside their piece and take a column.

## Theorems

* `barePipes_cellText`: The text of a cell has no bare pipe.
* `isPiece_of_mem_cellPieces`: A cell is written as pieces.
* `length_rowPieces`: A row has as many pieces as columns.
* `barePipes_tableLine`: A line has one bare pipe more than the table has columns.
* `table_lines`: The lines of a rendered table.
-/

namespace PageDistill

namespace Markdown

/-- The number of pipes without a backslash right before them. The flag tells whether a
    backslash stands right before the text. -/
def barePipes (afterBackslash : Bool) : List Char → Nat
  | [] => 0
  | c :: rest => (if c = '|' ∧ !afterBackslash then 1 else 0) + barePipes (c == '\\') rest

/-- A pipe after anything but a backslash counts. -/
theorem barePipes_pipe (s : List Char) : barePipes false ('|' :: s) = 1 + barePipes false s :=
  rfl

theorem barePipes_of_not_mem (afterBackslash : Bool) (s : List Char) (h : '|' ∉ s) :
    barePipes afterBackslash s = 0 := by
  induction s generalizing afterBackslash with
  | nil => rfl
  | cons c rest ih =>
      rw [List.mem_cons, not_or] at h
      rw [barePipes, ih _ h.2, if_neg fun hc => h.1 hc.1.symm]

/-- Text without pipes adds no bare pipe, even after a backslash. -/
theorem barePipes_append_of_not_mem (afterBackslash : Bool) (s t : List Char) (h : '|' ∉ t) :
    barePipes afterBackslash (s ++ t) = barePipes afterBackslash s := by
  induction s generalizing afterBackslash with
  | nil => rw [List.nil_append, barePipes_of_not_mem _ t h, barePipes]
  | cons c rest ih => rw [List.cons_append, barePipes, ih, barePipes]

/-- After a space the count starts again, whatever stood before the space. -/
theorem barePipes_append_space (afterBackslash : Bool) (s t : List Char) :
    barePipes afterBackslash (s ++ ' ' :: t) = barePipes afterBackslash s + barePipes false t := by
  induction s generalizing afterBackslash with
  | nil => simp [barePipes]
  | cons c rest ih => rw [List.cons_append, barePipes, ih, barePipes, Nat.add_assoc]

/-- Escaping leaves no bare pipe. A pipe is escaped, or a backslash of the text itself stands before
    it; in a run of pipes each one but the first follows a pipe. -/
theorem barePipes_escapePipes (afterBackslash : Bool) (s : List Char) :
    barePipes afterBackslash (escapePipes afterBackslash s) = 0 := by
  induction s generalizing afterBackslash with
  | nil => rfl
  | cons c rest ih =>
      rw [escapePipes]
      by_cases hc : c = '|' ∧ !afterBackslash
      · rw [if_pos hc, barePipes, barePipes]
        simpa using ih false
      · rw [if_neg hc, barePipes, ih, if_neg hc]

/-- The text of a cell has no bare pipe. -/
theorem barePipes_cellText (content : List Char) : barePipes false (cellText content) = 0 :=
  barePipes_escapePipes false (joinLines false content)

theorem lineEnd_not_mem_joinLines (inRun : Bool) (s : List Char) : '\n' ∉ joinLines inRun s := by
  induction s generalizing inRun with
  | nil => exact List.not_mem_nil
  | cons c rest ih =>
      rw [joinLines]
      by_cases hc : c = '\n'
      · rw [if_pos hc]
        cases inRun with
        | true => simpa using ih true
        | false => simpa using ih true
      · rw [if_neg hc, List.mem_cons, not_or]
        exact ⟨Ne.symm hc, ih false⟩

/-- Escaping pipes adds nothing but backslashes. -/
theorem mem_escapePipes (afterBackslash : Bool) (s : List Char) (c : Char)
    (h : c ∈ escapePipes afterBackslash s) : c = '\\' ∨ c ∈ s := by
  induction s generalizing afterBackslash with
  | nil => exact absurd h List.not_mem_nil
  | cons d rest ih =>
      rw [escapePipes] at h
      by_cases hd : d = '|' ∧ !afterBackslash
      · rw [if_pos hd, List.mem_cons, List.mem_cons] at h
        rcases h with hc | hc | hc
        · exact Or.inl hc
        · exact Or.inr (by rw [hc, ← hd.1]; exact List.mem_cons_self)
        · exact (ih false hc).imp id (List.mem_cons_of_mem d)
      · rw [if_neg hd, List.mem_cons] at h
        rcases h with hc | hc
        · exact Or.inr (by rw [hc]; exact List.mem_cons_self)
        · exact (ih _ hc).imp id (List.mem_cons_of_mem d)

theorem lineEnd_not_mem_cellText (content : List Char) : '\n' ∉ cellText content := by
  intro h
  rcases mem_escapePipes false _ '\n' h with hc | hc
  · exact absurd hc (by decide)
  · exact lineEnd_not_mem_joinLines false content hc

/-- What stands between two delimiters: some text without bare pipes and line ends, and a
    space. -/
def IsPiece (piece : List Char) : Prop :=
  ∃ body, piece = body ++ [' '] ∧ barePipes false body = 0 ∧ '\n' ∉ body

/-- Marks that take at least one column, and whose column can stand in a line. -/
structure CellMarks.Proper (m : CellMarks) : Prop where
  span : ∀ n, m.colspan = some n → 1 ≤ n
  column : ∀ id, m.colId = some id → '|' ∉ id.toList ∧ '\n' ∉ id.toList

/-- The text of an integer holds a sign and digits only. -/
theorem not_mem_integerText (n : Int) (c : Char) (hsign : c ≠ '-') (hdigit : c.isDigit = false) :
    c ∉ Number.integerText n := by
  rw [Number.integerText, List.mem_append, not_or]
  refine ⟨?_, Number.not_mem_naturalText _ hdigit⟩
  by_cases hn : n < 0
  · simp [hn, hsign]
  · simp [hn]

theorem not_mem_annotation (s : List Char) (c : Char)
    (hframe : c ∉ " <!-- ".toList ++ " -->".toList)
    (hs : c ∉ s) : c ∉ annotation s := by
  rw [List.mem_append, not_or] at hframe
  unfold annotation
  rw [List.mem_append, List.mem_append, not_or, not_or]
  exact ⟨⟨hframe.1, hs⟩, hframe.2⟩

theorem not_mem_spanAnnotation (label : String) (span : Option Int) (c : Char)
    (hframe : c ∉ " <!-- ".toList ++ " -->".toList) (hlabel : c ∉ label.toList ++ ": ".toList)
    (hsign : c ≠ '-') (hdigit : c.isDigit = false) : c ∉ spanAnnotation label span := by
  unfold spanAnnotation
  cases span with
  | none => exact List.not_mem_nil
  | some n =>
      simp only
      by_cases hn : n = 0
      · rw [if_pos hn]
        exact List.not_mem_nil
      · rw [if_neg hn]
        refine not_mem_annotation _ c hframe ?_
        rw [List.mem_append, not_or]
        exact ⟨hlabel, not_mem_integerText n c hsign hdigit⟩

/-- The comments of proper marks hold neither a pipe nor a line end. -/
theorem CellMarks.Proper.not_mem_annotations {m : CellMarks} (h : m.Proper) (c : Char)
    (hc : c = '|' ∨ c = '\n') : c ∉ annotations m := by
  -- The frame of a comment has neither sign in it, and neither has a number.
  have hframe : c ∉ " <!-- ".toList ++ " -->".toList := by
    rcases hc with rfl | rfl <;> decide
  have hsign : c ≠ '-' := by
    rcases hc with rfl | rfl <;> decide
  have hdigit : c.isDigit = false := by
    rcases hc with rfl | rfl <;> decide
  rw [annotations, List.mem_append, List.mem_append, not_or, not_or]
  refine ⟨⟨?_, ?_⟩, ?_⟩
  · cases hid : m.colId with
    | none => exact List.not_mem_nil
    | some id =>
        simp only
        by_cases hempty : id = ""
        · rw [if_pos hempty]
          exact List.not_mem_nil
        · rw [if_neg hempty]
          refine not_mem_annotation _ c hframe ?_
          rcases hc with rfl | rfl
          · exact (h.column id hid).1
          · exact (h.column id hid).2
  · exact not_mem_spanAnnotation _ _ c hframe (by rcases hc with rfl | rfl <;> decide) hsign hdigit
  · exact not_mem_spanAnnotation _ _ c hframe (by rcases hc with rfl | rfl <;> decide) hsign hdigit

/-- A cell is written as pieces, whatever it holds. -/
theorem isPiece_of_mem_cellPieces {m : CellMarks} (h : m.Proper) (content piece : List Char)
    (hmem : piece ∈ cellPieces m content) : IsPiece piece := by
  rw [cellPieces, List.mem_cons] at hmem
  rcases hmem with rfl | hfill
  · refine ⟨' ' :: (cellText content ++ annotations m), by simp, ?_, ?_⟩
    · have hbare := barePipes_append_of_not_mem false (cellText content) (annotations m)
        (h.not_mem_annotations '|' (Or.inl rfl))
      rw [barePipes, if_neg (by decide), Nat.zero_add]
      exact hbare.trans (barePipes_cellText content)
    · rw [List.mem_cons, List.mem_append, not_or, not_or]
      exact ⟨by decide, lineEnd_not_mem_cellText content,
        h.not_mem_annotations '\n' (Or.inr rfl)⟩
  · rw [List.eq_of_mem_replicate hfill]
    exact ⟨[], rfl, rfl, List.not_mem_nil⟩

theorem length_cellPieces {m : CellMarks} (h : m.Proper) (content : List Char) :
    ((cellPieces m content).length : Int) = m.width := by
  have hwidth := m.one_le_width h.span
  rw [cellPieces, List.length_cons, List.length_replicate]
  omega

/-- The pieces of a row, cell by cell. -/
theorem rowPieces_cons (indent : Int) (cell : Cell) (cells : List Cell) :
    ∃ content, rowPieces indent (cell :: cells) =
      cellPieces cell.marks content ++ rowPieces indent cells := by
  cases cell with
  | plain text marks => exact ⟨text.toList, rfl⟩
  | rich content marks => exact ⟨Text.trim (layOut (indent + 1) [] content), rfl⟩

section

variable {row : List Cell} (h : ∀ cell ∈ row, cell.marks.Proper)

include h

theorem isPiece_of_mem_rowPieces (indent : Int) (piece : List Char)
    (hmem : piece ∈ rowPieces indent row) : IsPiece piece := by
  induction row with
  | nil => exact absurd hmem List.not_mem_nil
  | cons cell cells ih =>
      rcases rowPieces_cons indent cell cells with ⟨content, heq⟩
      rw [heq, List.mem_append] at hmem
      rcases hmem with hcell | hrest
      · exact isPiece_of_mem_cellPieces (h cell List.mem_cons_self) content piece hcell
      · exact ih (fun c hc => h c (List.mem_cons_of_mem cell hc)) hrest

/-- A row has as many pieces as columns. -/
theorem length_rowPieces (indent : Int) : ((rowPieces indent row).length : Int) = rowWidth row := by
  induction row with
  | nil => rfl
  | cons cell cells ih =>
      rcases rowPieces_cons indent cell cells with ⟨content, heq⟩
      have hcell := length_cellPieces (h cell List.mem_cons_self) content
      have hrest := ih fun c hc => h c (List.mem_cons_of_mem cell hc)
      rw [heq, List.length_append, rowWidth]
      omega

end

/-- Between pieces, and after the last one, stands one bare pipe each. -/
theorem barePipes_joinWith (pieces : List (List Char)) (hne : pieces ≠ [])
    (h : ∀ piece ∈ pieces, IsPiece piece) :
    barePipes false (Text.joinWith ['|'] pieces ++ ['|']) = pieces.length := by
  induction pieces with
  | nil => exact absurd rfl hne
  | cons piece pieces ih =>
      rcases h piece List.mem_cons_self with ⟨body, rfl, hbare, _⟩
      cases pieces with
      | nil =>
          rw [Text.joinWith, List.append_assoc, List.singleton_append, barePipes_append_space,
            hbare]
          rfl
      | cons next others =>
          have hrest := ih (by simp) fun p hp => h p (List.mem_cons_of_mem _ hp)
          simp only [Text.joinWith_cons_cons, List.append_assoc, List.cons_append, List.nil_append]
          rw [barePipes_append_space, hbare, barePipes_pipe, hrest]
          simp only [List.length_cons]
          omega

section

variable {row : List Cell} (h : ∀ cell ∈ row, cell.marks.Proper) (indent : Int) {width : Int}

include h

/-- A line has one bare pipe more than the table has columns. -/
theorem barePipes_tableLine (hpos : 0 < width) (hle : rowWidth row ≤ width) :
    (barePipes false (tableLine width row (rowPieces indent row)) : Int) = width + 1 := by
  have hlength := length_rowPieces h indent
  have hfilled : ((rowPieces indent row ++
      List.replicate (width - rowWidth row).toNat [' ', ' ']).length : Int) = width := by
    rw [List.length_append, List.length_replicate]
    omega
  -- The row is filled up to the width, and what fills it is closed like any cell.
  have hpieces : ∀ piece ∈ rowPieces indent row ++
      List.replicate (width - rowWidth row).toNat [' ', ' '], IsPiece piece := by
    intro piece hmem
    rcases List.mem_append.mp hmem with hrow | hfill
    · exact isPiece_of_mem_rowPieces h indent piece hrow
    · rw [List.eq_of_mem_replicate hfill]
      exact ⟨[' '], rfl, rfl, by decide⟩
  have hne : rowPieces indent row ++
      List.replicate (width - rowWidth row).toNat [' ', ' '] ≠ [] := by
    intro hnil
    rw [hnil] at hfilled
    simp only [List.length_nil] at hfilled
    omega
  rw [tableLine, barePipes_pipe, barePipes_joinWith _ hne hpieces]
  omega

theorem lineEnd_not_mem_tableLine : '\n' ∉ tableLine width row (rowPieces indent row) := by
  rw [tableLine, List.mem_cons, List.mem_append, not_or, not_or]
  refine ⟨by decide, fun hmem => ?_, by decide⟩
  rcases Text.mem_joinWith _ _ _ hmem with hsep | ⟨piece, hpiece, hc⟩
  · exact absurd hsep (by decide)
  · rcases List.mem_append.mp hpiece with hrow | hfill
    · rcases isPiece_of_mem_rowPieces h indent piece hrow with ⟨body, rfl, _, hbody⟩
      rcases List.mem_append.mp hc with hb | hb
      · exact hbody hb
      · exact absurd hb (by decide)
    · rw [List.eq_of_mem_replicate hfill] at hc
      exact absurd hc (by decide)

end

theorem rowLines_eq_map (indent : Int) (width : Int) (rows : List (List Cell)) :
    rowLines indent width rows =
      rows.map fun row => tableLine width row (rowPieces indent row) := by
  induction rows with
  | nil => rfl
  | cons row rows ih => rw [rowLines, ih, List.map_cons]

/-- The lines of a rendered table. Where some row has a cell, the table has one line for
    each row, in order; each line is made of the pieces of its row, and has one bare pipe
    more than the widest row has columns. Otherwise there is no text.

    What the cells hold is arbitrary, and nothing is asked of it. -/
theorem table_lines (o : Options) (ho : o.WithoutNodeHooks) (indent : Int)
    (rows : List (List Cell)) (colIds : Option (List String))
    (hmarks : ∀ row ∈ rows, ∀ cell ∈ row, cell.marks.Proper) :
    ∃ text, (Node.table rows colIds).body o indent = .ok text ∧
      ((∃ row ∈ rows, row ≠ []) →
        (∀ row ∈ rows, rowWidth row ≤ tableWidth rows) ∧
          (∃ row ∈ rows, rowWidth row = tableWidth rows) ∧
          List.Forall₂ (fun row line =>
            (∃ pieces, renderRow o indent row = .ok pieces ∧
              line = tableLine (tableWidth rows) row pieces) ∧
            (barePipes false line : Int) = tableWidth rows + 1)
            rows (Text.splitOn '\n' text)) ∧
      ((∀ row ∈ rows, row = []) → text = []) := by
  refine ⟨_, Node.body_unhooked ho indent _, ?_, ?_⟩
  · rintro ⟨row, hrow, hcells⟩
    have hne : rows ≠ [] := fun hnil => by
      rw [hnil] at hrow
      exact absurd hrow List.not_mem_nil
    have hpos : 0 < tableWidth rows := by
      -- A row with cells is at least as wide as it has cells.
      have hlength := length_le_rowWidth row fun cell hcell => (hmarks row hrow cell hcell).span
      have hle := rowWidth_le_tableWidth rows row hrow
      have hcount := List.length_pos_iff.mpr hcells
      omega
    refine ⟨rowWidth_le_tableWidth rows, exists_rowWidth_eq rows hne, ?_⟩
    -- No cell breaks its line, so there are as many lines as rows.
    have hlines : Text.splitOn '\n' ((Node.table rows colIds).block indent) =
        rowLines indent (tableWidth rows) rows := by
      rw [Node.block, if_neg (by omega), rowLines_eq_map]
      refine Text.splitOn_joinWith '\n' _ (by simpa using hne) ?_
      intro line hline
      rcases List.mem_map.mp hline with ⟨other, hother, rfl⟩
      exact lineEnd_not_mem_tableLine (hmarks other hother) indent
    rw [hlines, rowLines_eq_map, List.forall₂_map_right_iff, List.forall₂_same]
    intro other hother
    exact ⟨⟨_, renderRow_unhooked ho indent other, rfl⟩,
      barePipes_tableLine (hmarks other hother) indent hpos
        (rowWidth_le_tableWidth rows other hother)⟩
  · intro hempty
    have hzero : tableWidth rows = 0 := by
      cases rows with
      | nil => rfl
      | cons first rest =>
          rcases exists_rowWidth_eq (first :: rest) (by simp) with ⟨row, hrow, heq⟩
          rw [← heq, hempty row hrow, rowWidth]
    rw [Node.block, if_pos hzero]

/-- A table with a cell of two columns, a short row and a row without cells. The cells hold runs of
    pipes and backslashes, a quote, code and a table of their own. -/
theorem table_lines_nested :
    let marks : CellMarks := ⟨some "col-0", some 2, some 3⟩
    let rows : List (List Cell) :=
      [[.plain "a||\\|b\\" marks,
          .rich [.quote [.text "x\n|y"], .code "p|q" none true] .none],
        [.rich [.table [[.plain "|" .none]] none] .none],
        []]
    Options.default.WithoutNodeHooks ∧ (∀ row ∈ rows, ∀ cell ∈ row, cell.marks.Proper) ∧
      ∃ text, (Node.table rows none).body Options.default 1 = .ok text ∧
        List.Forall₂ (fun row line =>
          (∃ pieces, renderRow Options.default 1 row = .ok pieces ∧
            line = tableLine (tableWidth rows) row pieces) ∧
          (barePipes false line : Int) = tableWidth rows + 1)
          rows (Text.splitOn '\n' text) := by
  intro marks rows
  have hplain : CellMarks.none.Proper := ⟨fun n hn => by simp [CellMarks.none] at hn,
    fun id hid => by simp [CellMarks.none] at hid⟩
  have hwide : marks.Proper := by
    refine ⟨fun n hn => ?_, fun id hid => ?_⟩
    · simp only [marks, Option.some.injEq] at hn
      omega
    · simp only [marks, Option.some.injEq] at hid
      rw [← hid]
      decide
  -- The marks of the one annotated cell are proper, and no other cell has any.
  have hmarks : ∀ row ∈ rows, ∀ cell ∈ row, cell.marks.Proper := by
    simp [rows, Cell.marks, hplain, hwide]
  rcases table_lines Options.default ⟨rfl, rfl⟩ 1 rows none hmarks with ⟨text, htext, hlines, _⟩
  exact ⟨⟨rfl, rfl⟩, hmarks, text, htext, (hlines ⟨_, List.mem_cons_self, by simp⟩).2.2⟩

end Markdown

end PageDistill
