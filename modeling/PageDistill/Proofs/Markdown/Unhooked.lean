import PageDistill.Markdown.FrontMatter

/-!
# Rendering Without Hooks

What is written for a tree when no hook on nodes is set.

Rendering asks two hooks and may be refused by either, so it is a computation that can
fail. Without hooks it is a function of the tree and the indent level alone: `layOut`
writes a list of nodes after what is there, and `Node.block` writes one node by itself.
`renderNodes_unhooked` and its companions say that rendering without hooks always succeeds
with exactly that text. A statement about pages without hooks can then be proved on a plain
recursion.

How a node is put after what is there does not depend on its kind beyond two flags, so
`place` says it once. It covers the nodes that leave no trace too.

## Main definitions

* `Options.WithoutNodeHooks`: No hook on nodes is set.
* `place`: A rendered node after what is there.
* `layOut`, `Node.block`: What is written for nodes, and for one node.
* `itemLines`, `rowLines`, `rowPieces`: What is written for items, rows and cells.

## Theorems

* `renderNodes_unhooked`: Rendering without hooks writes `layOut`.
* `Node.body_unhooked`: One node by itself is written as `Node.block`.
* `renderPage_unhooked`: The page is the front matter and the laid out nodes.
-/

namespace PageDistill

/-- No hook on nodes is set. -/
def Options.WithoutNodeHooks (o : Options) : Prop := o.overrideNode = none ∧ o.renderCustom = none

namespace Markdown

/-- A rendered node after what is there. A node that is neither inline nor a block
    leaves no trace. -/
def place (node : Node) (rest : List Node) (out written : List Char) : List Char :=
  if node.isInline then appendInline out written
  else if node.isBlock then appendBlock node.isSection (isApart node rest) out written
  else out

mutual

/-- What stands there after nodes are written to it. -/
def layOut (indent : Int) (out : List Char) : List Node → List Char
  | [] => out
  | node :: rest => layOut indent (place node rest out (node.block indent)) rest

/-- What is written for a node by itself. -/
def Node.block (indent : Int) : Node → List Char
  | .text content => content.toList
  | .emphasis style content => style.mark ++ Text.trim (layOut indent [] content) ++ style.mark
  | .link href content =>
    match shortLink? href content with
    | some text => text
    | none => longLink href (Text.trim (layOut (indent + 1) [] content))
  | .heading level content => headingLine level (Text.trim (layOut indent [] content))
  | .image src alt => imageText src alt
  | .video src poster controls => videoText src poster controls
  | .list ordered items => Text.joinWith ['\n'] (itemLines indent ordered 1 items)
  | .table rows _ =>
    if tableWidth rows = 0 then []
    else Text.joinWith ['\n'] (rowLines indent (tableWidth rows) rows)
  | .code content language inline =>
    if inline then inlineCode content else codeBlock content language
  | .quote content => quoteText (Text.trim (layOut indent [] content))
  | .semantic element content => semanticText element (Text.trim (layOut indent [] content))
  | _ => []

/-- The lines of list items, numbered from a number on. -/
def itemLines (indent : Int) (ordered : Bool) (number : Nat) :
    List (List Node) → List (List Char)
  | [] => []
  | item :: items =>
    itemLine indent ordered number (Text.trim (layOut (indent + 1) [] item)) ::
      itemLines indent ordered (number + 1) items

/-- The lines of the rows of a table of some width. -/
def rowLines (indent : Int) (width : Int) : List (List Cell) → List (List Char)
  | [] => []
  | row :: rows => tableLine width row (rowPieces indent row) :: rowLines indent width rows

/-- The pieces of the cells of a row. -/
def rowPieces (indent : Int) : List Cell → List (List Char)
  | [] => []
  | .plain text marks :: cells => cellPieces marks text.toList ++ rowPieces indent cells
  | .rich content marks :: cells =>
    cellPieces marks (Text.trim (layOut (indent + 1) [] content)) ++ rowPieces indent cells

end

/-- For a node that is neither inline nor a block nothing is written. -/
theorem Node.block_eq_nil (indent : Int) {node : Node} (hinline : ¬ node.isInline = true)
    (hblock : ¬ node.isBlock = true) : node.block indent = [] := by
  cases node with
  | text content => exact absurd rfl hinline
  | emphasis style content => exact absurd rfl hinline
  | link href content => exact absurd rfl hinline
  | code content language inline =>
      cases inline with
      | false => exact absurd rfl hblock
      | true => exact absurd rfl hinline
  | metadata entries => rfl
  | custom payload => rfl
  | listItem content => rfl
  | tableRow cells => rfl
  | tableCell cell => rfl
  | _ => exact absurd rfl hblock

/-- Without hooks one node is rendered by itself and placed, whatever its kind. -/
theorem renderNodes_cons {o : Options} (h : o.WithoutNodeHooks) (indent : Int) (out : List Char)
    (node : Node) (rest : List Node) :
    renderNodes o indent out (node :: rest) =
      (node.body o indent >>= fun written =>
        renderNodes o indent (place node rest out written) rest) := by
  have hask : ∀ node : Node, askNodeHook (o.shownTo o.overrideNode) node indent = .ok none := by
    intro node
    rw [h.1]
    rfl
  have hcustom : ∀ node : Node, askNodeHook (o.shownTo o.renderCustom) node indent = .ok none := by
    intro node
    rw [h.2]
    rfl
  -- A custom node is the only one that the second hook would be asked about.
  cases node with
  | custom payload =>
      simp [renderNodes, hask, hcustom, bind, Except.bind, Node.body, place, Node.isInline,
        Node.isBlock]
  | code content language inline =>
      cases inline <;>
        simp [renderNodes, hask, bind, Except.bind, Node.body, place, Node.isInline, Node.isBlock]
  | _ =>
      simp [renderNodes, hask, bind, Except.bind, Node.body, place, Node.isInline, Node.isBlock]

mutual

/-- Rendering without hooks writes `layOut`. -/
theorem renderNodes_unhooked {o : Options} (h : o.WithoutNodeHooks) (indent : Int)
    (out : List Char) (nodes : List Node) :
    renderNodes o indent out nodes = .ok (layOut indent out nodes) := by
  cases nodes with
  | nil => rfl
  | cons node rest =>
      rw [renderNodes_cons h, Node.body_unhooked h]
      exact renderNodes_unhooked h indent _ rest

/-- One node by itself is written as `Node.block`. -/
theorem Node.body_unhooked {o : Options} (h : o.WithoutNodeHooks) (indent : Int) (node : Node) :
    node.body o indent = .ok (node.block indent) := by
  cases node with
  | emphasis style content => rw [Node.body, renderNodes_unhooked h indent [] content]; rfl
  | link href content =>
      rw [Node.body, Node.block, renderNodes_unhooked h (indent + 1) [] content]
      cases shortLink? href content <;> rfl
  | heading level content => rw [Node.body, renderNodes_unhooked h indent [] content]; rfl
  | list ordered items => rw [Node.body, renderItems_unhooked h indent ordered 1 items]; rfl
  | table rows colIds =>
      rw [Node.body, Node.block, renderRows_unhooked h indent (tableWidth rows) rows]
      -- A table without columns is not written at all.
      by_cases hwidth : tableWidth rows = 0
      · rw [if_pos hwidth, if_pos hwidth]
      · rw [if_neg hwidth, if_neg hwidth]
        rfl
  | quote content => rw [Node.body, renderNodes_unhooked h indent [] content]; rfl
  | semantic element content => rw [Node.body, renderNodes_unhooked h indent [] content]; rfl
  | _ => rfl

theorem renderItems_unhooked {o : Options} (h : o.WithoutNodeHooks) (indent : Int)
    (ordered : Bool) (number : Nat) (items : List (List Node)) :
    renderItems o indent ordered number items = .ok (itemLines indent ordered number items) := by
  cases items with
  | nil => rfl
  | cons item items =>
      rw [renderItems, renderNodes_unhooked h (indent + 1) [] item,
        renderItems_unhooked h indent ordered (number + 1) items]
      rfl

theorem renderRows_unhooked {o : Options} (h : o.WithoutNodeHooks) (indent : Int) (width : Int)
    (rows : List (List Cell)) :
    renderRows o indent width rows = .ok (rowLines indent width rows) := by
  cases rows with
  | nil => rfl
  | cons row rows =>
      rw [renderRows, renderRow_unhooked h indent row, renderRows_unhooked h indent width rows]
      rfl

theorem renderRow_unhooked {o : Options} (h : o.WithoutNodeHooks) (indent : Int)
    (row : List Cell) :
    renderRow o indent row = .ok (rowPieces indent row) := by
  cases row with
  | nil => rfl
  | cons cell cells =>
      cases cell with
      | plain text marks =>
          rw [renderRow, renderRow_unhooked h indent cells]
          rfl
      | rich content marks =>
          rw [renderRow, renderNodes_unhooked h (indent + 1) [] content,
            renderRow_unhooked h indent cells]
          rfl

end

/-- The page is the front matter and the laid out nodes, trimmed at the end. -/
theorem renderPage_unhooked {o : Options} (h : o.WithoutNodeHooks) (indent : Int)
    (nodes : List Node) :
    renderPage o indent nodes =
      .ok (Text.trimEnd (frontMatter o.metadata nodes ++ layOut indent [] nodes)) := by
  rw [renderPage, renderContent, renderNodes_unhooked h]
  rfl

end Markdown

end PageDistill
