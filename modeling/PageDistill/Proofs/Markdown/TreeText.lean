import PageDistill.Markdown.Walk

/-!
# The Text of a Semantic Tree

The texts that a tree holds, one after another in the order of rendering.

Text stands in three places: text nodes, code, and plain cells. The first two hold it as it
is. A plain cell holds it escaped, so the view is taken with a reading of such cells: as
they stand, for what is compared with the Markdown, and undone, for what is compared with
the page.

Everything else in a tree is not text of the page. The alternative text of an image and
the sources of images and videos are attributes, and metadata and the nodes of callers
come from elsewhere.

## Main definitions

* `textOf`, `Node.ownText`: The texts of nodes, and of one node.
* `itemsText`, `rowsText`, `rowText`: The texts of items, rows and cells.

## Theorems

* `textOf_append`: The text of two lists of nodes in a row.
-/

namespace PageDistill

namespace Markdown

mutual

/-- The texts of nodes, with a reading of plain cells. -/
def textOf (read : String → List Char) : List Node → List Char
  | [] => []
  | node :: nodes => node.ownText read ++ textOf read nodes

/-- The texts of a node and of what it holds. -/
def Node.ownText (read : String → List Char) : Node → List Char
  | .text content => content.toList
  | .emphasis _ content => textOf read content
  | .link _ content => textOf read content
  | .heading _ content => textOf read content
  | .list _ items => itemsText read items
  | .table rows _ => rowsText read rows
  | .code content _ _ => content.toList
  | .quote content => textOf read content
  | .semantic _ content => textOf read content
  | .listItem content => textOf read content
  | .tableRow cells => rowText read cells
  | .tableCell (.plain text _) => read text
  | .tableCell (.rich content _) => textOf read content
  | _ => []

/-- The texts of the items of a list. -/
def itemsText (read : String → List Char) : List (List Node) → List Char
  | [] => []
  | item :: items => textOf read item ++ itemsText read items

/-- The texts of the rows of a table. -/
def rowsText (read : String → List Char) : List (List Cell) → List Char
  | [] => []
  | row :: rows => rowText read row ++ rowsText read rows

/-- The texts of the cells of a row. -/
def rowText (read : String → List Char) : List Cell → List Char
  | [] => []
  | .plain text _ :: cells => read text ++ rowText read cells
  | .rich content _ :: cells => textOf read content ++ rowText read cells

end

@[simp] theorem textOf_nil (read : String → List Char) : textOf read [] = [] := by
  rw [textOf]

theorem textOf_cons (read : String → List Char) (node : Node) (nodes : List Node) :
    textOf read (node :: nodes) = node.ownText read ++ textOf read nodes := by
  rw [textOf]

@[simp] theorem textOf_singleton (read : String → List Char) (node : Node) :
    textOf read [node] = node.ownText read := by
  rw [textOf_cons, textOf_nil, List.append_nil]

/-- The text of nodes is that of each, in a row. -/
theorem textOf_eq_flatMap (read : String → List Char) (nodes : List Node) :
    textOf read nodes = nodes.flatMap (Node.ownText read) := by
  induction nodes with
  | nil => rw [textOf_nil, List.flatMap_nil]
  | cons node nodes ih => rw [textOf_cons, ih, List.flatMap_cons]

/-- The text of two lists of nodes in a row. -/
theorem textOf_append (read : String → List Char) (a b : List Node) :
    textOf read (a ++ b) = textOf read a ++ textOf read b := by
  rw [textOf_eq_flatMap, textOf_eq_flatMap, textOf_eq_flatMap, List.flatMap_append]

end Markdown

end PageDistill
