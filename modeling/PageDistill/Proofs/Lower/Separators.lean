import Mathlib.Data.List.Forall2
import PageDistill.Lower
import PageDistill.Proofs.Dom.Tally
import PageDistill.Proofs.Markdown.TreeText
import PageDistill.Proofs.Markdown.Unescape
import PageDistill.Proofs.Text.Visible

/-!
# Trees Without Their Separators

What a lowered tree holds of a page, apart from what lowering put there.

Lowering puts one thing into a tree that the page does not have: after a first row with a
header cell stands a row of dashes. `Separated bare full` says that `full` is the tree `bare`
with such rows put into some of its tables, at any depth. Each table gets one at most, as its
second row, and as many dashes as the first row has columns. What the page says has to be
the text of the bare tree then, with the escape of plain cells undone; a tree with this
property `Holds` the text.

The rules below put trees together the way lowering does. Each takes trees that hold some
text and makes one that holds the text of all of them, so the induction over a page needs to
know nothing of separators.

## Main definitions

* `Separated`, `SeparatedCell`: A tree, and the same with separators put in.
* `undone`: A plain cell with its escape undone.
* `Holds`: What a tree holds, seen without blanks.

## Theorems

* `Holds.append`: Trees in a row.
* `Holds.wrap`: Trees in a container.
* `Holds.table`, `Holds.header`: Tables without and with a separator.
* `Separated.seen_eq`: Separators add nothing but dashes.
-/

namespace PageDistill

open Dom (seen)
open Text (visible)
open Markdown (Node Cell CellMarks Emphasis textOf itemsText rowsText rowText)

mutual

/-- A node, and the same with separators put into some of the tables in it. -/
inductive Separated : Node → Node → Prop where
  | same (node : Node) : Separated node node
  | emphasis (style : Emphasis) {bare full : List Node} (h : List.Forall₂ Separated bare full) :
    Separated (.emphasis style bare) (.emphasis style full)
  | link (href : String) {bare full : List Node} (h : List.Forall₂ Separated bare full) :
    Separated (.link href bare) (.link href full)
  | heading (level : Int) {bare full : List Node} (h : List.Forall₂ Separated bare full) :
    Separated (.heading level bare) (.heading level full)
  | list (ordered : Bool) {bare full : List (List Node)}
    (h : List.Forall₂ (List.Forall₂ Separated) bare full) :
    Separated (.list ordered bare) (.list ordered full)
  | table (colIds : Option (List String)) {bare full : List (List Cell)}
    (h : List.Forall₂ (List.Forall₂ SeparatedCell) bare full) :
    Separated (.table bare colIds) (.table full colIds)
  | header (colIds : Option (List String)) {first row : List Cell} {bare full : List (List Cell)}
    (hfirst : List.Forall₂ SeparatedCell first row)
    (h : List.Forall₂ (List.Forall₂ SeparatedCell) bare full) :
    Separated (.table (first :: bare) colIds)
      (.table (row :: separatorRow (Markdown.rowWidth row).toNat :: full) colIds)
  | quote {bare full : List Node} (h : List.Forall₂ Separated bare full) :
    Separated (.quote bare) (.quote full)
  | semantic (element : String) {bare full : List Node} (h : List.Forall₂ Separated bare full) :
    Separated (.semantic element bare) (.semantic element full)

/-- A cell, and the same with separators put into some of the tables in it. -/
inductive SeparatedCell : Cell → Cell → Prop where
  | plain (text : String) (marks : CellMarks) :
      SeparatedCell (.plain text marks) (.plain text marks)
  | rich (marks : CellMarks) {bare full : List Node} (h : List.Forall₂ Separated bare full) :
    SeparatedCell (.rich bare marks) (.rich full marks)

end

/-- The text of a plain cell with its escape undone. -/
def undone (text : String) : List Char := Markdown.unescape text.toList

/-- The nodes hold a text: it is the text of the nodes without separators, up to blanks. -/
def Holds (text : List Char) (nodes : List Node) : Prop :=
  ∃ bare, List.Forall₂ Separated bare nodes ∧ visible (textOf undone bare) = visible text

/-- The cells hold a text. -/
def CellsHold (text : List Char) (cells : List Cell) : Prop :=
  ∃ bare, List.Forall₂ SeparatedCell bare cells ∧ visible (rowText undone bare) = visible text

namespace Holds

theorem nil {text : List Char} (h : visible text = []) : Holds text [] :=
  ⟨[], List.Forall₂.nil, h.symm⟩

/-- A node that lowering has nothing to put in. -/
theorem single {text : List Char} (node : Node)
    (h : visible (node.ownText undone) = visible text) : Holds text [node] := by
  refine ⟨[node], List.Forall₂.cons (Separated.same node) List.Forall₂.nil, ?_⟩
  rw [Markdown.textOf_singleton]
  exact h

variable {text more : List Char} {nodes others : List Node}

/-- The same text up to blanks. -/
theorem congr (h : Holds text nodes) (heq : visible text = visible more) : Holds more nodes := by
  rcases h with ⟨bare, hbare, htext⟩
  exact ⟨bare, hbare, htext.trans heq⟩

/-- Trees in a row hold texts in a row. -/
theorem append (h : Holds text nodes) (hmore : Holds more others) :
    Holds (text ++ more) (nodes ++ others) := by
  rcases h with ⟨bare, hbare, htext⟩
  rcases hmore with ⟨bare', hbare', hmore⟩
  refine ⟨bare ++ bare', List.rel_append hbare hbare', ?_⟩
  rw [Markdown.textOf_append, Text.visible_append, htext, hmore, Text.visible_append]

/-- A container holds what its content holds. -/
theorem wrap (h : Holds text nodes) (node : List Node → Node)
    (hnode : ∀ {bare full : List Node}, List.Forall₂ Separated bare full →
      Separated (node bare) (node full))
    (hsame : ∀ bare, (node bare).ownText undone = textOf undone bare) :
    Holds text [node nodes] := by
  rcases h with ⟨bare, hbare, htext⟩
  refine ⟨[node bare], List.Forall₂.cons (hnode hbare) List.Forall₂.nil, ?_⟩
  rw [Markdown.textOf_singleton, hsame, htext]

end Holds

-- The parts of lists, rows and tables come as two lists in step: what the parts of the page
-- say, and the parts of the tree. Each is taken apart into bare parts that say the same.

/-- Items hold what their parts hold, one by one. -/
theorem items_hold {α : Type} {said : α → List Char} {parts : List α} {items : List (List Node)}
    (h : List.Forall₂ (fun part item => Holds (said part) item) parts items) :
    ∃ bare, List.Forall₂ (List.Forall₂ Separated) bare items ∧
      visible (itemsText undone bare) = parts.flatMap fun part => visible (said part) := by
  induction h with
  | nil => exact ⟨[], List.Forall₂.nil, rfl⟩
  | cons hitem _ ih =>
      rcases hitem with ⟨item, hitem, htext⟩
      rcases ih with ⟨bare, hbare, hrest⟩
      refine ⟨item :: bare, List.Forall₂.cons hitem hbare, ?_⟩
      rw [itemsText, Text.visible_append, htext, hrest, List.flatMap_cons]

/-- And so do rows. -/
theorem rows_hold {α : Type} {said : α → List Char} {parts : List α} {rows : List (List Cell)}
    (h : List.Forall₂ (fun part row => CellsHold (said part) row) parts rows) :
    ∃ bare, List.Forall₂ (List.Forall₂ SeparatedCell) bare rows ∧
      visible (rowsText undone bare) = parts.flatMap fun part => visible (said part) := by
  induction h with
  | nil => exact ⟨[], List.Forall₂.nil, rfl⟩
  | cons hrow _ ih =>
      rcases hrow with ⟨row, hrow, htext⟩
      rcases ih with ⟨bare, hbare, hrest⟩
      refine ⟨row :: bare, List.Forall₂.cons hrow hbare, ?_⟩
      rw [rowsText, Text.visible_append, htext, hrest, List.flatMap_cons]

theorem CellsHold.nil : CellsHold [] [] := ⟨[], List.Forall₂.nil, rfl⟩

/-- One more plain cell holds its text, with the escapes undone. -/
theorem CellsHold.plain {text more : List Char} {cells : List Cell} (content : String)
    (marks : CellMarks) (htext : visible (undone content) = visible text)
    (h : CellsHold more cells) : CellsHold (text ++ more) (.plain content marks :: cells) := by
  rcases h with ⟨bare, hbare, hmore⟩
  refine ⟨.plain content marks :: bare, List.Forall₂.cons (.plain content marks) hbare, ?_⟩
  rw [rowText, Text.visible_append, htext, hmore, Text.visible_append]

/-- A rich cell holds what its contents hold. -/
theorem CellsHold.rich {text more : List Char} {cells : List Cell} {content : List Node}
    (marks : CellMarks) (hcontent : Holds text content) (h : CellsHold more cells) :
    CellsHold (text ++ more) (.rich content marks :: cells) := by
  rcases hcontent with ⟨inner, hinner, htext⟩
  rcases h with ⟨bare, hbare, hmore⟩
  refine ⟨.rich inner marks :: bare, List.Forall₂.cons (.rich marks hinner) hbare, ?_⟩
  rw [rowText, Text.visible_append, htext, hmore, Text.visible_append]

namespace Holds

variable {α : Type} {said : α → List Char} {parts : List α} {text : List Char}

/-- A list whose items hold what the parts of a text say. -/
theorem list {items : List (List Node)} (ordered : Bool)
    (h : List.Forall₂ (fun part item => Holds (said part) item) parts items)
    (htext : visible text = parts.flatMap fun part => visible (said part)) :
    Holds text [.list ordered items] := by
  rcases items_hold h with ⟨bare, hbare, hitems⟩
  refine ⟨[.list ordered bare], List.Forall₂.cons (Separated.list ordered hbare) .nil, ?_⟩
  rw [Markdown.textOf_singleton, Node.ownText, hitems, htext]

/-- A table whose rows hold what the parts of a text say. -/
theorem table {rows : List (List Cell)} (colIds : Option (List String))
    (h : List.Forall₂ (fun part row => CellsHold (said part) row) parts rows)
    (htext : visible text = parts.flatMap fun part => visible (said part)) :
    Holds text [.table rows colIds] := by
  rcases rows_hold h with ⟨bare, hbare, hrows⟩
  refine ⟨[.table bare colIds], List.Forall₂.cons (Separated.table colIds hbare) .nil, ?_⟩
  rw [Markdown.textOf_singleton, Node.ownText, hrows, htext]

/-- The same table with a separator after its first row. -/
theorem header {first : List Cell} {rows : List (List Cell)} (colIds : Option (List String))
    (h : List.Forall₂ (fun part row => CellsHold (said part) row) parts (first :: rows))
    (htext : visible text = parts.flatMap fun part => visible (said part)) :
    Holds text
      [.table (first :: separatorRow (Markdown.rowWidth first).toNat :: rows) colIds] := by
  rcases rows_hold h with ⟨bare, hbare, hrows⟩
  cases hbare with
  | cons hfirst hrest =>
      refine ⟨[.table _ colIds], .cons (Separated.header colIds hfirst hrest) .nil, ?_⟩
      rw [Markdown.textOf_singleton, Node.ownText, hrows, htext]

end Holds

section

variable {p : Char → Bool}

/-- A separator has nothing but dashes. -/
theorem seen_separatorRow (hp : p '-' = false) (width : Nat) :
    seen p (rowText undone (separatorRow width)) = 0 := by
  unfold separatorRow
  induction width with
  | zero => rfl
  | succ width ih =>
      have hdashes : visible (undone "---") = ['-', '-', '-'] := by decide
      rw [List.replicate_succ, rowText, Dom.seen_append, ih, seen, hdashes]
      simp [hp]

mutual

/-- A node with separators put in has the same characters, apart from dashes. -/
theorem Separated.seen_eq (hp : p '-' = false) {bare full : Node} (h : Separated bare full) :
    seen p (full.ownText undone) = seen p (bare.ownText undone) := by
  cases h with
  | same => rfl
  | list _ h => exact seen_items_eq hp h
  | table _ h => exact seen_rows_eq hp h
  | header _ hfirst h =>
      rw [Node.ownText, Node.ownText, rowsText, rowsText, rowsText, Dom.seen_append,
        Dom.seen_append, Dom.seen_append, seen_separatorRow hp, Nat.zero_add, seen_row_eq hp hfirst,
        seen_rows_eq hp h]
  | emphasis _ h | link _ h | heading _ h | quote h | semantic _ h => exact seen_nodes_eq hp h

/-- Separators show nothing but hyphens. -/
theorem seen_nodes_eq (hp : p '-' = false) {bare full : List Node}
    (h : List.Forall₂ Separated bare full) :
    seen p (textOf undone full) = seen p (textOf undone bare) := by
  cases h with
  | nil => rfl
  | cons h hrest =>
      rw [Markdown.textOf_cons, Markdown.textOf_cons, Dom.seen_append, Dom.seen_append,
        h.seen_eq hp, seen_nodes_eq hp hrest]

theorem seen_items_eq (hp : p '-' = false) {bare full : List (List Node)}
    (h : List.Forall₂ (List.Forall₂ Separated) bare full) :
    seen p (itemsText undone full) = seen p (itemsText undone bare) := by
  cases h with
  | nil => rfl
  | cons h hrest =>
      rw [itemsText, itemsText, Dom.seen_append, Dom.seen_append, seen_nodes_eq hp h,
        seen_items_eq hp hrest]

theorem seen_rows_eq (hp : p '-' = false) {bare full : List (List Cell)}
    (h : List.Forall₂ (List.Forall₂ SeparatedCell) bare full) :
    seen p (rowsText undone full) = seen p (rowsText undone bare) := by
  cases h with
  | nil => rfl
  | cons h hrest =>
      rw [rowsText, rowsText, Dom.seen_append, Dom.seen_append, seen_row_eq hp h,
        seen_rows_eq hp hrest]

theorem seen_row_eq (hp : p '-' = false) {bare full : List Cell}
    (h : List.Forall₂ SeparatedCell bare full) :
    seen p (rowText undone full) = seen p (rowText undone bare) := by
  cases h with
  | nil => rfl
  | cons h hrest =>
      have hothers := seen_row_eq hp hrest
      cases h with
      | plain text marks => rw [rowText, rowText, Dom.seen_append, Dom.seen_append, hothers]
      | rich marks h =>
          rw [rowText, rowText, Dom.seen_append, Dom.seen_append, seen_nodes_eq hp h, hothers]

end

end

end PageDistill
