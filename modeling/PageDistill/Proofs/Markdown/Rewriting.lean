import PageDistill.Markdown.Walk
import PageDistill.Proofs.Markdown.Unhooked
import PageDistill.Url.Shorten

/-!
# Rewriting Every Node of a Tree

A tree with every node in it replaced, from below.

A view of a tree that forgets some of its data, and a change that leaves most of it alone, are
both functions of a single node that are applied everywhere. `rewrite` does the recursion over
items, rows and cells once for all of them. It goes where a walk goes: a node that is a bare row
or cell is given to the function as it is.

A function that leaves what is directly below a node there rewrites the children of a node as it
rewrites the node. And a pass over the URLs of a tree is seen to change nothing but addresses, once
these are blanked everywhere.

A change may be one that cannot be seen. If each node is written by itself as before, and is put
among others as before, then so is the tree: nothing that is written for a tree depends on more than
what is written for the nodes below.

## Main definitions

* `Node.rewrite`, `rewrite`, `Cell.rewrite`: A node, a list of nodes and a cell, rewritten from
  below.
* `Url.withoutAddress`: A node with its address blanked.
* `Unseen`: A change of nodes that does not show.

## Theorems

* `rewrite_append`: Joined lists are rewritten apart.
* `rewriteItems_eq`, `rewriteRow_eq`, `rewriteRows_eq`: Items, cells and rows are rewritten one by
  one.
* `Node.children_rewrite`: The children of a node are rewritten with it.
* `Url.rewrite_shorten`: A pass over URLs changes addresses only.
* `rowWidth_rewriteRow`, `tableWidth_rewriteRows`: Rewriting keeps the columns of a table.
* `layOut_rewrite`: A tree is written as before if the change of its nodes does not show.
-/

namespace PageDistill

namespace Markdown

mutual

/-- A node, rewritten after all that a walk finds below it. -/
def Node.rewrite (f : Node → Node) : Node → Node
  | .emphasis style content => f (.emphasis style (rewrite f content))
  | .link href content => f (.link href (rewrite f content))
  | .heading level content => f (.heading level (rewrite f content))
  | .list ordered items => f (.list ordered (rewriteItems f items))
  | .table rows colIds => f (.table (rewriteRows f rows) colIds)
  | .quote content => f (.quote (rewrite f content))
  | .semantic element content => f (.semantic element (rewrite f content))
  | .listItem content => f (.listItem (rewrite f content))
  | node => f node

/-- Nodes, each rewritten with what is below it. -/
def rewrite (f : Node → Node) : List Node → List Node
  | [] => []
  | node :: nodes => node.rewrite f :: rewrite f nodes

/-- The contents of items, rewritten. -/
def rewriteItems (f : Node → Node) : List (List Node) → List (List Node)
  | [] => []
  | item :: items => rewrite f item :: rewriteItems f items

/-- The rows of a table with the contents of their cells rewritten. -/
def rewriteRows (f : Node → Node) : List (List Cell) → List (List Cell)
  | [] => []
  | row :: rows => rewriteRow f row :: rewriteRows f rows

/-- The cells of a row with their contents rewritten. -/
def rewriteRow (f : Node → Node) : List Cell → List Cell
  | [] => []
  | .plain text marks :: cells => .plain text marks :: rewriteRow f cells
  | .rich content marks :: cells => .rich (rewrite f content) marks :: rewriteRow f cells

end

/-- A cell with its contents rewritten. -/
def Cell.rewrite (f : Node → Node) : Cell → Cell
  | .plain text marks => .plain text marks
  | .rich content marks => .rich (Markdown.rewrite f content) marks

variable (f : Node → Node)

theorem rewrite_append (a b : List Node) : rewrite f (a ++ b) = rewrite f a ++ rewrite f b := by
  induction a with
  | nil => rfl
  | cons node rest ih => rw [List.cons_append, rewrite, ih, rewrite, List.cons_append]

/-- Nodes are rewritten one by one. -/
theorem rewrite_eq (nodes : List Node) : rewrite f nodes = nodes.map (Node.rewrite f) := by
  induction nodes with
  | nil => rfl
  | cons node rest ih => rw [rewrite, ih, List.map_cons]

theorem rewriteItems_eq (items : List (List Node)) :
    rewriteItems f items = items.map (rewrite f) := by
  induction items with
  | nil => rfl
  | cons item items ih => rw [rewriteItems, ih, List.map_cons]

theorem rewriteRow_eq (cells : List Cell) :
    rewriteRow f cells = cells.map (Cell.rewrite f) := by
  induction cells with
  | nil => rfl
  | cons cell cells ih =>
      cases cell with
      | plain text marks => rw [rewriteRow, ih, List.map_cons, Cell.rewrite]
      | rich content marks => rw [rewriteRow, ih, List.map_cons, Cell.rewrite]

theorem rewriteRows_eq (rows : List (List Cell)) :
    rewriteRows f rows = rows.map (rewriteRow f) := by
  induction rows with
  | nil => rfl
  | cons row rows ih => rw [rewriteRows, ih, List.map_cons]

/-- What is below the cells of a row is changed node by node if it is so for each cell. -/
theorem flatMap_content_map {change : Cell → Cell} {f : Node → Node}
    (h : ∀ cell, (change cell).content = cell.content.map f) (cells : List Cell) :
    (cells.map change).flatMap Cell.content = (cells.flatMap Cell.content).map f := by
  rw [List.flatMap_map, List.map_flatMap]
  simp only [h]

/-- What is in a cell is rewritten node by node. -/
theorem Cell.content_rewrite (cell : Cell) :
    (cell.rewrite f).content = cell.content.map (Node.rewrite f) := by
  cases cell with
  | plain text marks => rfl
  | rich content marks => exact rewrite_eq f content

/-- The children of a node are rewritten with it, if they are left below it. -/
theorem Node.children_rewrite {f : Node → Node} (hf : ∀ node, (f node).children = node.children)
    (node : Node) : (node.rewrite f).children = node.children.map (Node.rewrite f) := by
  cases node with
  | list ordered items =>
      rw [Node.rewrite, hf, Node.children, Node.children, rewriteItems_eq, List.map_flatten,
        funext (rewrite_eq f)]
  | table rows colIds =>
      rw [Node.rewrite, hf, Node.children, Node.children, rewriteRows_eq,
        funext (rewriteRow_eq f), ← List.map_flatten, flatMap_content_map (Cell.content_rewrite f)]
  | emphasis style content => exact (hf _).trans (rewrite_eq f content)
  | link href content => exact (hf _).trans (rewrite_eq f content)
  | heading level content => exact (hf _).trans (rewrite_eq f content)
  | quote content => exact (hf _).trans (rewrite_eq f content)
  | semantic element content => exact (hf _).trans (rewrite_eq f content)
  | listItem content => exact (hf _).trans (rewrite_eq f content)
  | _ => exact hf _

/-- A cell keeps its marks, so a row keeps its columns. -/
theorem rowWidth_rewriteRow (row : List Cell) : rowWidth (rewriteRow f row) = rowWidth row := by
  induction row with
  | nil => rfl
  | cons cell cells ih =>
      cases cell with
      | plain text marks => rw [rewriteRow, rowWidth, rowWidth, ih]
      | rich content marks =>
          rw [rewriteRow, rowWidth, rowWidth, ih]
          rfl

theorem tableWidth_rewriteRows (rows : List (List Cell)) :
    tableWidth (rewriteRows f rows) = tableWidth rows := by
  induction rows with
  | nil => rfl
  | cons row rows ih =>
      cases rows with
      | nil => exact rowWidth_rewriteRow f row
      | cons next others =>
          change max (rowWidth (rewriteRow f row)) (tableWidth (rewriteRows f (next :: others))) =
            max (rowWidth row) (tableWidth (next :: others))
          rw [ih, rowWidth_rewriteRow]

/-- A change of nodes that does not show: each node is written by itself as before, is put among
    others as before, and texts stay texts. -/
structure Unseen : Prop where
  block : ∀ node indent, (f node).block indent = node.block indent
  isInline : ∀ node, (f node).isInline = node.isInline
  isBlock : ∀ node, (f node).isBlock = node.isBlock
  isSection : ∀ node, (f node).isSection = node.isSection
  isHeading : ∀ node, (f node).isHeading = node.isHeading
  text : ∀ node content, f node = .text content ↔ node = .text content

section

variable {f}

/-- What is asked of a node from the outside does not depend on the nodes below it. -/
theorem isInline_rewrite (hf : Unseen f) (node : Node) :
    (node.rewrite f).isInline = node.isInline := by
  cases node <;> exact hf.isInline _

theorem isBlock_rewrite (hf : Unseen f) (node : Node) :
    (node.rewrite f).isBlock = node.isBlock := by
  cases node <;> exact hf.isBlock _

/-- A node is kept apart from what follows as before. -/
theorem isApart_rewrite (hf : Unseen f) (node : Node) (rest : List Node) :
    isApart (node.rewrite f) (rewrite f rest) = isApart node rest := by
  have hheading : (node.rewrite f).isHeading = node.isHeading := by
    cases node <;> exact hf.isHeading _
  unfold isApart
  rw [hheading]
  cases rest with
  | nil => rfl
  | cons next others => simp only [rewrite, isBlock_rewrite hf]

/-- It is put after what stands there as before. -/
theorem place_rewrite (hf : Unseen f) (node : Node) (rest : List Node) (out written : List Char) :
    place (node.rewrite f) (rewrite f rest) out written = place node rest out written := by
  have hsection : (node.rewrite f).isSection = node.isSection := by
    cases node <;> exact hf.isSection _
  unfold place
  rw [isInline_rewrite hf, isBlock_rewrite hf, isApart_rewrite hf, hsection]

/-- The short form of a link looks for a text. -/
theorem shortLink?_rewrite (hf : Unseen f) (href : String) (content : List Node) :
    shortLink? href (rewrite f content) = shortLink? href content := by
  -- Only a single text can make a link short, and a text stays what it is.
  have hnone : ∀ node : Node, (∀ content, node ≠ .text content) →
      shortLink? href [node] = none := by
    intro node hnode
    cases node with
    | text content => exact absurd rfl (hnode content)
    | _ => rfl
  have hmany : ∀ (node next : Node) (others : List Node),
      shortLink? href (node :: next :: others) = none := by
    intro node next others
    cases node <;> rfl
  cases content with
  | nil => rfl
  | cons node rest =>
      cases rest with
      | nil =>
          cases node with
          | text content =>
              exact congrArg (fun node => shortLink? href [node]) ((hf.text _ content).mpr rfl)
          | _ => exact hnone _ fun content h => nomatch (hf.text _ content).mp h
      | cons next others => rw [rewrite, rewrite, hmany, hmany]

mutual

/-- A tree is written as before if the change of its nodes does not show. -/
theorem layOut_rewrite (hf : Unseen f) (indent : Int) (out : List Char) (nodes : List Node) :
    layOut indent out (rewrite f nodes) = layOut indent out nodes := by
  cases nodes with
  | nil => rfl
  | cons node rest =>
      rw [rewrite, layOut, layOut, place_rewrite hf, block_rewrite hf indent node]
      exact layOut_rewrite hf indent _ rest

/-- A node is written by itself as before. -/
theorem block_rewrite (hf : Unseen f) (indent : Int) (node : Node) :
    (node.rewrite f).block indent = node.block indent := by
  -- What stands at the node itself is not seen, and what is below is rewritten alike.
  cases node with
  | emphasis style content =>
      rw [Node.rewrite, hf.block, Node.block, layOut_rewrite hf indent [] content, Node.block]
  | link href content =>
      rw [Node.rewrite, hf.block, Node.block, layOut_rewrite hf (indent + 1) [] content,
        shortLink?_rewrite hf, Node.block]
  | heading level content =>
      rw [Node.rewrite, hf.block, Node.block, layOut_rewrite hf indent [] content, Node.block]
  | list ordered items =>
      rw [Node.rewrite, hf.block, Node.block, itemLines_rewrite hf indent ordered 1 items,
        Node.block]
  | table rows colIds =>
      rw [Node.rewrite, hf.block, Node.block, tableWidth_rewriteRows,
        rowLines_rewrite hf indent _ rows, Node.block]
  | quote content =>
      rw [Node.rewrite, hf.block, Node.block, layOut_rewrite hf indent [] content, Node.block]
  | semantic element content =>
      rw [Node.rewrite, hf.block, Node.block, layOut_rewrite hf indent [] content, Node.block]
  | _ => exact hf.block _ indent

theorem itemLines_rewrite (hf : Unseen f) (indent : Int) (ordered : Bool) (number : Nat)
    (items : List (List Node)) :
    itemLines indent ordered number (rewriteItems f items) =
      itemLines indent ordered number items := by
  cases items with
  | nil => rfl
  | cons item items =>
      rw [rewriteItems, itemLines, layOut_rewrite hf (indent + 1) [] item,
        itemLines_rewrite hf indent ordered (number + 1) items, itemLines]

theorem rowLines_rewrite (hf : Unseen f) (indent : Int) (width : Int) (rows : List (List Cell)) :
    rowLines indent width (rewriteRows f rows) = rowLines indent width rows := by
  cases rows with
  | nil => rfl
  | cons row rows =>
      rw [rewriteRows, rowLines, rowPieces_rewrite hf indent row,
        rowLines_rewrite hf indent width rows, rowLines]
      unfold tableLine
      rw [rowWidth_rewriteRow]

theorem rowPieces_rewrite (hf : Unseen f) (indent : Int) (cells : List Cell) :
    rowPieces indent (rewriteRow f cells) = rowPieces indent cells := by
  cases cells with
  | nil => rfl
  | cons cell cells =>
      cases cell with
      | plain text marks => rw [rewriteRow, rowPieces, rowPieces_rewrite hf indent cells, rowPieces]
      | rich content marks =>
          rw [rewriteRow, rowPieces, layOut_rewrite hf (indent + 1) [] content,
            rowPieces_rewrite hf indent cells, rowPieces]

end

end

end Markdown

namespace Url

open Markdown (Node Cell rewrite rewriteItems rewriteRows rewriteRow)

/-- A node without the address of a link, an image or a video. -/
def withoutAddress : Node → Node
  | .link _ content => .link "" content
  | .image _ alt => .image "" alt
  | .video _ poster controls => .video (.text "") poster controls
  | node => node

mutual

/-- A pass puts other addresses into a node and touches nothing else. -/
theorem rewrite_shortenNode (state : Shortening) (node : Node) :
    (shortenNode state node).1.rewrite withoutAddress = node.rewrite withoutAddress := by
  -- Shortening changes addresses only, and these are what is taken away.
  cases node with
  | emphasis style content =>
      simp only [shortenNode, Node.rewrite, rewrite_shorten state content]
  | link href content =>
      simp only [shortenNode, Node.rewrite, rewrite_shorten _ content, withoutAddress]
  | heading level content =>
      simp only [shortenNode, Node.rewrite, rewrite_shorten state content]
  | image src alt => rfl
  | video src poster controls => rfl
  | list ordered items =>
      simp only [shortenNode, Node.rewrite, rewriteItems_shorten state items]
  | table rows colIds =>
      simp only [shortenNode, Node.rewrite, rewriteRows_shorten state rows]
  | quote content => simp only [shortenNode, Node.rewrite, rewrite_shorten state content]
  | semantic element content =>
      simp only [shortenNode, Node.rewrite, rewrite_shorten state content]
  | listItem content => simp only [shortenNode, Node.rewrite, rewrite_shorten state content]
  | _ => rfl

/-- A pass changes the addresses of links, images and videos only. -/
theorem rewrite_shorten (state : Shortening) (nodes : List Node) :
    rewrite withoutAddress (shorten state nodes).1 = rewrite withoutAddress nodes := by
  cases nodes with
  | nil => rfl
  | cons node rest =>
      simp only [shorten, rewrite, rewrite_shortenNode state node, rewrite_shorten _ rest]

theorem rewriteItems_shorten (state : Shortening) (items : List (List Node)) :
    rewriteItems withoutAddress (shortenItems state items).1 =
      rewriteItems withoutAddress items := by
  cases items with
  | nil => rfl
  | cons item items =>
      simp only [shortenItems, rewriteItems, rewrite_shorten state item,
        rewriteItems_shorten _ items]

theorem rewriteRows_shorten (state : Shortening) (rows : List (List Cell)) :
    rewriteRows withoutAddress (shortenRows state rows).1 = rewriteRows withoutAddress rows := by
  cases rows with
  | nil => rfl
  | cons row rows =>
      simp only [shortenRows, rewriteRows, rewriteRow_shorten state row,
        rewriteRows_shorten _ rows]

theorem rewriteRow_shorten (state : Shortening) (cells : List Cell) :
    rewriteRow withoutAddress (shortenRow state cells).1 = rewriteRow withoutAddress cells := by
  cases cells with
  | nil => rfl
  | cons cell cells =>
      cases cell with
      | plain text marks => simp only [shortenRow, rewriteRow, rewriteRow_shorten state cells]
      | rich content marks =>
          simp only [shortenRow, rewriteRow, rewrite_shorten state content,
            rewriteRow_shorten _ cells]

end

end Url

end PageDistill
