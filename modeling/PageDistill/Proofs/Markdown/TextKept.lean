import Mathlib.Data.List.Flatten
import PageDistill.Proofs.Markdown.TreeText
import PageDistill.Proofs.Markdown.Unhooked
import PageDistill.Proofs.Text.Visible

/-!
# Rendering Keeps the Text

Every visible character of the text of a tree stands in its Markdown, in the same order.

Rendering trims what is inside a container, takes line ends off before a block, cuts quotes
into lines, brings cells onto one line and drops blocks that came out empty. Each of these
takes blank characters away and no others, so the view of visible characters does not see
it. Whatever else rendering does is to put characters in: marks, numbers, comments, and
backslashes before pipes. What remains is thus one statement about the view, that it only
grows, proved along the tree.

Two kinds of trees are left out. An item, a row or a cell that stands outside its list or
table is not rendered at all. A cell that spans less than one column can make the widest
row of a table take no column, and then the whole table is dropped.

## Main definitions

* `CellMarks.takesColumn`: Marks that let a cell take a column.
* `Node.isRegular`: Nodes that are not bare parts, and tables whose cells take columns.
* `Regular`: Trees of such nodes.

## Theorems

* `visible_joinLines`, `sublist_escapePipes`: What is seen of a cell.
* `visible_sublist_quoteText`: What is seen of a quote.
* `visible_place_block`: What is seen after a node is placed.
* `visible_sublist_layOut`: The text of nodes is seen where they are laid out.
* `renderPage_keeps_text`: The text of a tree is a part of its Markdown.
-/

namespace PageDistill

open Text (visible)

namespace Markdown

/-- Whether the marks let a cell take a column. -/
def CellMarks.takesColumn (m : CellMarks) : Bool := m.colspan.all fun n => decide (1 ≤ n)

/-- A cell takes a column unless its span is below one. -/
theorem CellMarks.takesColumn_iff (m : CellMarks) :
    m.takesColumn = true ↔ ∀ n, m.colspan = some n → 1 ≤ n := by
  unfold CellMarks.takesColumn
  cases m.colspan with
  | none => simp
  | some n => simp

/-- Nodes that are not bare parts of a list or a table, and tables whose cells take
    columns. -/
def Node.isRegular : Node → Bool
  | .listItem _ => false
  | .tableRow _ => false
  | .tableCell _ => false
  | .table rows _ => rows.all fun row => row.all fun cell => cell.marks.takesColumn
  | _ => true

/-- Trees in which parts of lists and tables stand only there and all cells take columns. -/
def Regular (nodes : List Node) : Prop := ∀ node ∈ walk nodes, node.isRegular = true

instance (nodes : List Node) : Decidable (Regular nodes) :=
  inferInstanceAs (Decidable (∀ node ∈ walk nodes, node.isRegular = true))

/-- Bringing a text onto one line is not seen. -/
theorem visible_joinLines (inRun : Bool) (s : List Char) :
    visible (joinLines inRun s) = visible s := by
  induction s generalizing inRun with
  | nil => rfl
  | cons c rest ih =>
      unfold joinLines
      by_cases hc : c = '\n'
      · rw [if_pos hc, hc, Text.visible_lineEnd]
        cases inRun with
        | true => exact ih true
        | false =>
            simp only [Bool.false_eq_true, if_false]
            rw [Text.visible_space, ih true]
      · rw [if_neg hc, ← List.singleton_append, Text.visible_append, ih false,
          ← Text.visible_append, List.singleton_append]

/-- Escaping pipes only puts characters in. -/
theorem sublist_escapePipes (afterBackslash : Bool) (s : List Char) :
    s.Sublist (escapePipes afterBackslash s) := by
  induction s generalizing afterBackslash with
  | nil => exact List.Sublist.refl _
  | cons c rest ih =>
      unfold escapePipes
      by_cases hc : c = '|' ∧ !afterBackslash
      · rw [if_pos hc, hc.1]
        exact ((ih false).cons_cons '|').cons '\\'
      · rw [if_neg hc]
        exact (ih (c == '\\')).cons_cons c

/-- What is seen of a part of a text is a part of what is seen of the text. -/
theorem visible_sublist_visible {s t : List Char} (h : s.Sublist t) :
    (visible s).Sublist (visible t) := h.filter _

/-- A cell keeps its text in its pieces. -/
theorem visible_sublist_cellPieces (m : CellMarks) (content : List Char) :
    (visible content).Sublist ((cellPieces m content).flatMap visible) := by
  have hcell : (visible content).Sublist (visible (cellText content)) := by
    rw [← visible_joinLines false content]
    exact visible_sublist_visible (sublist_escapePipes false _)
  unfold cellPieces
  rw [List.flatMap_cons, Text.visible_space, Text.visible_append, Text.visible_append]
  -- The comments and the fillers come after the text of the cell.
  refine hcell.trans ?_
  simp only [List.append_assoc]
  exact List.sublist_append_left _ _

/-- A line keeps the pieces of its cells. -/
theorem visible_sublist_tableLine (width : Int) (row : List Cell) (pieces : List (List Char)) :
    (pieces.flatMap visible).Sublist (visible (tableLine width row pieces)) := by
  -- What joins the pieces is added between them, and nothing of them is lost.
  have hjoin : ∀ filled : List (List Char),
      (filled.flatMap visible).Sublist (visible (Text.joinWith ['|'] filled)) := by
    intro filled
    induction filled with
    | nil => exact List.Sublist.refl _
    | cons piece rest ih =>
        cases rest with
        | nil => simp [Text.joinWith]
        | cons next others =>
            rw [Text.joinWith_cons_cons, Text.visible_append, Text.visible_append,
              List.append_assoc, List.flatMap_cons]
            exact (List.Sublist.refl _).append (ih.trans (List.sublist_append_right _ _))
  have hline : tableLine width row pieces = ['|'] ++ (Text.joinWith ['|']
      (pieces ++ List.replicate (width - rowWidth row).toNat [' ', ' ']) ++ ['|']) := rfl
  rw [hline, Text.visible_append, Text.visible_append]
  refine List.Sublist.trans ?_ (List.sublist_append_right _ _)
  refine List.Sublist.trans ?_ (List.sublist_append_left _ _)
  refine List.Sublist.trans ?_ (hjoin _)
  rw [List.flatMap_append]
  exact List.sublist_append_left _ _

/-- A quote has every line of its content in it. -/
theorem visible_sublist_quoteText (inner : List Char) :
    (visible inner).Sublist (visible (quoteText inner)) := by
  unfold quoteText
  by_cases hempty : inner.isEmpty = true
  · rw [if_pos hempty, List.isEmpty_iff.mp hempty]
    exact List.nil_sublist _
  · rw [if_neg hempty, Text.visible_joinWith ['\n'] (by decide), List.flatMap_map,
      ← Text.visible_splitOn '\n' (by decide) inner]
    -- Each line keeps its own characters behind the mark.
    refine List.Sublist.flatMap_right _ fun line _ => ?_
    rw [Text.visible_trimEnd]
    exact visible_sublist_visible ((List.sublist_cons_self _ _).cons _)

theorem visible_sublist_semanticText (element : String) (inner : List Char) :
    (visible inner).Sublist (visible (semanticText element inner)) := by
  unfold semanticText
  by_cases hempty : inner.isEmpty = true
  · rw [List.isEmpty_iff.mp hempty]
    exact List.nil_sublist _
  · rw [if_neg hempty]
    -- Only an empty inside is dropped. A frame, if there is one, goes around the rest.
    by_cases harticle : element = "article"
    · simp only [if_pos harticle, List.Sublist.refl]
    · rw [if_neg harticle]
      by_cases hsection : element = "section"
      · rw [if_pos hsection]
        refine visible_sublist_visible (List.Sublist.trans ?_ (List.sublist_append_left _ _))
        exact List.sublist_append_right _ _
      · rw [if_neg hsection]
        refine visible_sublist_visible ?_
        simp only [List.append_assoc]
        refine List.Sublist.trans ?_ (List.sublist_append_right _ _)
        refine List.Sublist.trans ?_ (List.sublist_append_right _ _)
        refine List.Sublist.trans ?_ (List.sublist_append_right _ _)
        exact List.sublist_append_left _ _

theorem visible_sublist_itemLine (indent : Int) (ordered : Bool) (number : Nat)
    (inner : List Char) :
    (visible inner).Sublist (visible (itemLine indent ordered number inner)) := by
  unfold itemLine
  by_cases hempty : inner.isEmpty = true
  · rw [List.isEmpty_iff.mp hempty]
    exact List.nil_sublist _
  · simp only [if_neg hempty, Text.visible_append, Text.visible_space]
    exact List.sublist_append_right _ _

/-- The short form of a link holds its only text. -/
theorem shortLink?_eq_some (href : String) (content : List Node) (text : List Char)
    (h : shortLink? href content = some text) :
    ∃ only, content = [.text only] ∧
      text = '[' :: (only.toList ++ ']' :: '(' :: (destination href ++ [')'])) := by
  unfold shortLink? at h
  split at h
  · rename_i only
    by_cases hline : only.toList = Text.trim only.toList ∧ !only.toList.contains '\n'
    · simp only [if_pos hline, Option.some.injEq] at h
      exact ⟨only, rfl, h.symm⟩
    · simp only [if_neg hline] at h
      exact absurd h (by simp)
  · exact absurd h (by simp)

/-- Line ends that are taken off are not seen. -/
theorem visible_trimLineEnds (s : List Char) : visible (trimLineEnds s) = visible s :=
  Text.visible_trimEndBy _ (fun c hc => by rw [beq_iff_eq.mp hc]; decide) s

theorem visible_openLine (isSection : Bool) (out : List Char) :
    visible (openLine isSection out) = visible out := by
  unfold openLine
  by_cases hempty : out.isEmpty = true
  · rw [if_pos hempty, List.isEmpty_iff.mp hempty]
  · rw [if_neg hempty]
    by_cases hsection : isSection = true
    · rw [if_pos hsection, Text.visible_append, visible_trimLineEnds]
      exact List.append_nil _
    · rw [if_neg hsection]
      by_cases hlast : out.getLast? = some '\n'
      · rw [if_pos hlast]
      · rw [if_neg hlast, Text.visible_append]
        exact List.append_nil _

/-- Text is put behind text with blank between them only. -/
theorem visible_appendInline (out piece : List Char) :
    visible (appendInline out piece) = visible out ++ visible piece := by
  unfold appendInline
  by_cases hspace : needsSpace out piece = true
  · rw [if_pos hspace, Text.visible_append, Text.visible_space]
  · rw [if_neg hspace, Text.visible_append]

/-- A block is put behind text with line ends between them only. -/
theorem visible_appendBlock (isSection isApart : Bool) (out block : List Char) :
    visible (appendBlock isSection isApart out block) = visible out ++ visible block := by
  unfold appendBlock
  by_cases hempty : block.isEmpty = true
  · rw [if_pos hempty, List.isEmpty_iff.mp hempty]
    exact (List.append_nil _).symm
  · rw [if_neg hempty, Text.visible_append, visible_trimLineEnds, Text.visible_append,
      visible_openLine]
    cases isApart <;> exact List.append_nil _

/-- A node is seen after what is there. One that leaves no trace has nothing to be seen. -/
theorem visible_place_block (node : Node) (rest : List Node) (out : List Char) (indent : Int) :
    visible (place node rest out (node.block indent)) =
      visible out ++ visible (node.block indent) := by
  unfold place
  by_cases hinline : node.isInline = true
  · rw [if_pos hinline, visible_appendInline]
  · rw [if_neg hinline]
    by_cases hblock : node.isBlock = true
    · rw [if_pos hblock, visible_appendBlock]
    · rw [if_neg hblock]
      rw [Node.block_eq_nil indent hinline hblock, Text.visible_nil, List.append_nil]

theorem rowsText_of_eq_nil (read : String → List Char) (rows : List (List Cell))
    (h : ∀ row ∈ rows, row = []) : rowsText read rows = [] := by
  induction rows with
  | nil => rfl
  | cons row rows ih =>
      rw [rowsText, h row List.mem_cons_self, rowText, List.nil_append]
      exact ih fun other hother => h other (List.mem_cons_of_mem row hother)

/-- A table without columns has no text. -/
theorem rowsText_of_tableWidth_eq_zero (rows : List (List Cell))
    (h : ∀ row ∈ rows, ∀ cell ∈ row, cell.marks.takesColumn = true) (hzero : tableWidth rows = 0)
    (read : String → List Char) : rowsText read rows = [] :=
  rowsText_of_eq_nil read rows <| eq_nil_of_tableWidth_eq_zero rows
    (fun row hrow cell hcell => cell.marks.takesColumn_iff.mp (h row hrow cell hcell)) hzero

-- Each statement of the induction is about the text that one function of the renderer gets
-- and the text that it writes, both seen without blanks.
mutual

/-- The text of nodes is seen where they are laid out, after what was there. -/
theorem visible_sublist_layOut (indent : Int) (out : List Char) (nodes : List Node)
    (h : ∀ node ∈ walk nodes, node.isRegular = true) :
    (visible out ++ visible (textOf String.toList nodes)).Sublist
      (visible (layOut indent out nodes)) := by
  cases nodes with
  | nil =>
      rw [textOf_nil, Text.visible_nil, List.append_nil]
      exact List.Sublist.refl _
  | cons node rest =>
      -- The node comes after what was there, and the rest after both.
      have hnode := visible_sublist_block indent node fun n hn =>
        h n (by rw [walk]; exact List.mem_append_left _ hn)
      have hrest := visible_sublist_layOut indent (place node rest out (node.block indent)) rest
        fun n hn => h n (by rw [walk]; exact List.mem_append_right _ hn)
      rw [visible_place_block] at hrest
      rw [textOf_cons, Text.visible_append, ← List.append_assoc, layOut]
      exact (((List.Sublist.refl _).append hnode).append (List.Sublist.refl _)).trans hrest

/-- The text of a node is seen in what is written for it. -/
theorem visible_sublist_block (indent : Int) (node : Node)
    (h : ∀ n ∈ node.walk, n.isRegular = true) :
    (visible (node.ownText String.toList)).Sublist (visible (node.block indent)) := by
  cases node with
  | text content => exact List.Sublist.refl _
  | emphasis style content =>
      have hinner := visible_sublist_layOut indent [] content fun n hn =>
        h n (List.mem_cons_of_mem _ hn)
      rw [Node.ownText, Node.block, Text.visible_append, Text.visible_append, Text.visible_trim]
      exact (hinner.trans (List.sublist_append_right _ _)).trans (List.sublist_append_left _ _)
  | link href content =>
      have hinner := visible_sublist_layOut (indent + 1) [] content fun n hn =>
        h n (List.mem_cons_of_mem _ hn)
      rw [Node.ownText, Node.block]
      -- A short link shows its text as the address.
      cases hshort : shortLink? href content with
      | none =>
          unfold longLink
          rw [Text.visible_append, Text.visible_append, Text.visible_trim]
          exact (hinner.trans (List.sublist_append_right _ _)).trans (List.sublist_append_left _ _)
      | some text =>
          rcases shortLink?_eq_some href content text hshort with ⟨only, rfl, rfl⟩
          rw [textOf_singleton, Node.ownText]
          exact visible_sublist_visible ((List.sublist_append_left _ _).cons _)
  | heading level content =>
      have hinner := visible_sublist_layOut indent [] content fun n hn =>
        h n (List.mem_cons_of_mem _ hn)
      rw [Node.ownText, Node.block, headingLine, Text.visible_append, Text.visible_space,
        Text.visible_trim]
      exact hinner.trans (List.sublist_append_right _ _)
  | list ordered items =>
      have hitems := visible_sublist_itemLines indent ordered 1 items fun n hn =>
        h n (List.mem_cons_of_mem _ hn)
      rw [Node.ownText, Node.block, Text.visible_joinWith ['\n'] (by decide)]
      exact hitems
  | table rows colIds =>
      rw [Node.ownText, Node.block]
      by_cases hwidth : tableWidth rows = 0
      · -- Nothing is written then, but there are no cells to lose either.
        have hcells := h _ List.mem_cons_self
        simp only [Node.isRegular, List.all_eq_true] at hcells
        rw [rowsText_of_tableWidth_eq_zero rows hcells hwidth]
        exact List.nil_sublist _
      · rw [if_neg hwidth, Text.visible_joinWith ['\n'] (by decide)]
        exact visible_sublist_rowLines indent (tableWidth rows) rows fun n hn =>
          h n (List.mem_cons_of_mem _ hn)
  | code content language inline =>
      rw [Node.ownText, Node.block]
      refine visible_sublist_visible ?_
      cases inline with
      | true => exact (List.sublist_append_right _ _).trans (List.sublist_append_left _ _)
      | false => exact ((List.sublist_append_left _ _).cons _).trans (List.sublist_append_right _ _)
  | quote content =>
      have hinner := visible_sublist_layOut indent [] content fun n hn =>
        h n (List.mem_cons_of_mem _ hn)
      rw [Node.ownText, Node.block]
      refine List.Sublist.trans ?_ (visible_sublist_quoteText _)
      rw [Text.visible_trim]
      exact hinner
  | semantic element content =>
      have hinner := visible_sublist_layOut indent [] content fun n hn =>
        h n (List.mem_cons_of_mem _ hn)
      rw [Node.ownText, Node.block]
      refine List.Sublist.trans ?_ (visible_sublist_semanticText element _)
      rw [Text.visible_trim]
      exact hinner
  | listItem content => exact absurd (h _ List.mem_cons_self) (by rw [Node.isRegular]; decide)
  | tableRow cells => exact absurd (h _ List.mem_cons_self) (by rw [Node.isRegular]; decide)
  | tableCell cell => exact absurd (h _ List.mem_cons_self) (by rw [Node.isRegular]; decide)
  | _ => exact List.nil_sublist _

/-- The lines of a list keep the texts of its items. -/
theorem visible_sublist_itemLines (indent : Int) (ordered : Bool) (number : Nat)
    (items : List (List Node)) (h : ∀ n ∈ walkItems items, n.isRegular = true) :
    (visible (itemsText String.toList items)).Sublist
      ((itemLines indent ordered number items).flatMap visible) := by
  cases items with
  | nil => exact List.nil_sublist _
  | cons item items =>
      have hitem := visible_sublist_layOut (indent + 1) [] item fun n hn =>
        h n (by rw [walkItems]; exact List.mem_append_left _ hn)
      have hitems := visible_sublist_itemLines indent ordered (number + 1) items fun n hn =>
        h n (by rw [walkItems]; exact List.mem_append_right _ hn)
      rw [itemsText, itemLines, Text.visible_append, List.flatMap_cons]
      refine List.Sublist.append (List.Sublist.trans ?_ (visible_sublist_itemLine ..)) hitems
      rw [Text.visible_trim]
      exact hitem

theorem visible_sublist_rowLines (indent : Int) (width : Int) (rows : List (List Cell))
    (h : ∀ n ∈ walkRows rows, n.isRegular = true) :
    (visible (rowsText String.toList rows)).Sublist
      ((rowLines indent width rows).flatMap visible) := by
  cases rows with
  | nil => exact List.nil_sublist _
  | cons row rows =>
      have hrow := visible_sublist_rowPieces indent row fun n hn =>
        h n (by rw [walkRows]; exact List.mem_append_left _ hn)
      have hrows := visible_sublist_rowLines indent width rows fun n hn =>
        h n (by rw [walkRows]; exact List.mem_append_right _ hn)
      rw [rowsText, rowLines, Text.visible_append, List.flatMap_cons]
      exact (hrow.trans (visible_sublist_tableLine width row _)).append hrows

/-- The pieces of a row keep the texts of its cells. -/
theorem visible_sublist_rowPieces (indent : Int) (row : List Cell)
    (h : ∀ n ∈ walkRow row, n.isRegular = true) :
    (visible (rowText String.toList row)).Sublist ((rowPieces indent row).flatMap visible) := by
  cases row with
  | nil => exact List.nil_sublist _
  | cons cell cells =>
      cases cell with
      | plain text marks =>
          have hcells := visible_sublist_rowPieces indent cells fun n hn =>
            h n (by rw [walkRow]; exact hn)
          rw [rowText, rowPieces, Text.visible_append, List.flatMap_append]
          exact (visible_sublist_cellPieces marks text.toList).append hcells
      -- The text of a rich cell is what its nodes are written as.
      | rich content marks =>
          have hcontent := visible_sublist_layOut (indent + 1) [] content fun n hn =>
            h n (by rw [walkRow]; exact List.mem_append_left _ hn)
          have hcells := visible_sublist_rowPieces indent cells fun n hn =>
            h n (by rw [walkRow]; exact List.mem_append_right _ hn)
          rw [rowText, rowPieces, Text.visible_append, List.flatMap_append]
          refine List.Sublist.append (List.Sublist.trans ?_ (visible_sublist_cellPieces marks _))
            hcells
          rw [Text.visible_trim]
          exact hcontent

end

/-- Rendering loses and reorders no text: without hooks, at every indent level, the visible
    characters of the text of a tree are a part of its Markdown. -/
theorem renderPage_keeps_text (o : Options) (ho : o.WithoutNodeHooks) (indent : Int)
    (nodes : List Node) (h : Regular nodes) :
    ∃ text, renderPage o indent nodes = .ok text ∧
      (visible (textOf String.toList nodes)).Sublist text := by
  refine ⟨_, renderPage_unhooked ho indent nodes, ?_⟩
  have hnodes := visible_sublist_layOut indent [] nodes h
  rw [Text.visible_nil, List.nil_append] at hnodes
  refine List.Sublist.trans ?_ (Text.visible_sublist _)
  rw [Text.visible_trimEnd, Text.visible_append]
  exact hnodes.trans (List.sublist_append_right _ _)

/-- A page with every kind of container: a section, a heading, both forms of a link, a list in a
    list, a quote of two lines, and a table whose cells hold pipes, a line end and a list. -/
theorem renderPage_keeps_text_mixed :
    let nodes : List Node :=
      [.semantic "section" [.heading 2 [.text " One\u00a0"]],
        .link "/a b" [.text "two"], .link "/c" [.emphasis .italic [.text "three "]],
        .list true [[.text "four", .list false [[.text " five\n"]], .text "six"]],
        .quote [.text "seven\n\neight"],
        .code "x | y\n" (some "c") false,
        .table [[.plain "a|b\\|\n" .none, .rich [.list false [[.text "nine|"]]] .none],
          [.plain "ten" ⟨some "col-0", some 2, some 1⟩]] (some ["col-0"])]
    Options.default.WithoutNodeHooks ∧ Regular nodes ∧
      ∃ text, renderPage Options.default 0 nodes = .ok text ∧
        (visible (textOf String.toList nodes)).Sublist text :=
  ⟨⟨rfl, rfl⟩, by decide, renderPage_keeps_text Options.default ⟨rfl, rfl⟩ 0 _ (by decide)⟩

end Markdown

end PageDistill
