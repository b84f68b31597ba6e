import PageDistill.Dom.AttrValue
import PageDistill.Json.Value

/-!
# The Semantic Tree

The tree between a page and its Markdown: what a document says, without how the
page laid it out.

Inline nodes are text, emphasis, links and inline code. Block nodes are the
headings, images, videos, lists, tables, code blocks, quotes and the semantic
elements of a page. A list holds the contents of its items, and a table holds
rows of cells, so an item or a cell is not a node there. A node that is a bare
item, row or cell can be written down all the same; it belongs to no list and no
table, and nothing is rendered for it.

A cell that held only text is `plain`, and its text is already escaped. Any
other cell is `rich` and holds nodes.

## Main definitions

* `Emphasis`: Strong text, stressed text and struck-out text.
* `CellMarks`: The column and the spans of a cell.
* `Metadata`: What the head of a page says about it.
* `Node`, `Cell`: The tree.
* `Node.typeName`: The name of a node's type.
* `Node.isInline`, `Node.isBlock`: The two ways in which nodes are laid out.
-/

namespace PageDistill

namespace Markdown

/-- The kinds of emphasis that Markdown marks on both sides of a text. -/
inductive Emphasis where
  | bold
  | italic
  | strikethrough
  deriving DecidableEq, Repr

/-- The column that a cell begins in and the columns and rows that it spans. A
    span that is missing, or zero, is a span of one. -/
structure CellMarks where
  colId : Option String
  colspan : Option Int
  rowspan : Option Int
  deriving DecidableEq, Repr

/-- A cell without marks. -/
def CellMarks.none : CellMarks := ⟨Option.none, Option.none, Option.none⟩

/-- The number of columns that the marks let a cell take. -/
def CellMarks.width (m : CellMarks) : Int :=
  match m.colspan with
  | some span => if span = 0 then 1 else span
  | Option.none => 1

/-- What the head of a page says: the title with the named entries, the entries
    for link previews, and the structured data. Entries stand in the order in
    which their keys came up. -/
structure Metadata where
  standard : List (String × Dom.AttrValue)
  openGraph : List (String × Dom.AttrValue)
  twitter : List (String × Dom.AttrValue)
  jsonLd : Option (List Json.Value)
  deriving Repr

/-- Metadata that says nothing. -/
def Metadata.empty : Metadata := ⟨[], [], [], none⟩

mutual

/-- A node of the semantic tree. -/
inductive Node where
  | text (content : String)
  | emphasis (style : Emphasis) (content : List Node)
  | link (href : String) (content : List Node)
  | heading (level : Int) (content : List Node)
  | image (src : String) (alt : Option String)
  | video (src : Dom.AttrValue) (poster : Option String) (controls : Option Bool)
  | list (ordered : Bool) (items : List (List Node))
  | table (rows : List (List Cell)) (colIds : Option (List String))
  | code (content : String) (language : Option String) (inline : Bool)
  | quote (content : List Node)
  | semantic (element : String) (content : List Node)
  | metadata (entries : Metadata)
  | custom (payload : Json.Value)
  | listItem (content : List Node)
  | tableRow (cells : List Cell)
  | tableCell (cell : Cell)

/-- A cell of a table. -/
inductive Cell where
  | plain (text : String) (marks : CellMarks)
  | rich (content : List Node) (marks : CellMarks)

end

instance : Inhabited Node := ⟨.text ""⟩

/-- The column and the spans of a cell. -/
def Cell.marks : Cell → CellMarks
  | .plain _ marks => marks
  | .rich _ marks => marks

/-- The number of columns that a row of cells takes. -/
def rowWidth : List Cell → Int
  | [] => 0
  | cell :: cells => cell.marks.width + rowWidth cells

/-- The name of a kind of emphasis. -/
def Emphasis.name : Emphasis → String
  | .bold => "bold"
  | .italic => "italic"
  | .strikethrough => "strikethrough"

namespace Node

/-- The name of a node's type, as rules and searches refer to it. -/
def typeName : Node → String
  | .text _ => "text"
  | .emphasis style _ => style.name
  | .link .. => "link"
  | .heading .. => "heading"
  | .image .. => "image"
  | .video .. => "video"
  | .list .. => "list"
  | .table .. => "table"
  | .code .. => "code"
  | .quote _ => "blockquote"
  | .semantic .. => "semanticHtml"
  | .metadata _ => "meta"
  | .custom _ => "custom"
  | .listItem _ => "listItem"
  | .tableRow _ => "tableRow"
  | .tableCell _ => "tableCell"

/-- Nodes that flow along a line. -/
def isInline : Node → Bool
  | .text _ => true
  | .emphasis .. => true
  | .link .. => true
  | .code _ _ inline => inline
  | _ => false

/-- Nodes that stand on lines of their own. -/
def isBlock : Node → Bool
  | .heading .. => true
  | .image .. => true
  | .video .. => true
  | .list .. => true
  | .table .. => true
  | .code _ _ inline => !inline
  | .quote _ => true
  | .semantic .. => true
  | _ => false

end Node

end Markdown

end PageDistill
