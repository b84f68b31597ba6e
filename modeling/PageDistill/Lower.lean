import PageDistill.Dom.Category
import PageDistill.Metadata
import PageDistill.Number.Integer
import PageDistill.Options

/-!
# From a Page to the Semantic Tree

The nodes below an element of a page, lowered into nodes of the semantic tree.

Children are lowered in document order. The hook on elements is asked first for
each of them. Text is trimmed and dropped when nothing is left, elements are
lowered by their category, and strings of other kinds are dropped.

The recursion goes down one level at a time and carries the number of levels
that may still keep their structure. Where none is left, the element becomes the
text it holds, with a warning. So the recursion is on that number, and an
element's own rules are written against a `lower` that is the recursion one
level further down.

## Main definitions

* `Descent`: How the elements one level further down are lowered.
* `lowerLink`, `lowerTable`, `lowerCode`: Elements with rules of their own.
* `lowerElement`: An element by its category.
* `lowerChild`: A child, with the hook.
* `lowerLevels`: The children of an element, with the levels left.
* `levelsWithin`: The levels that a limit leaves at the top of a conversion.
* `lower`: The children of an element at the top of a conversion.
-/

namespace PageDistill

open Markdown (Node Cell CellMarks)

/-- The nodes for the children of an element one level further down, at an
    indent level. -/
abbrev Descent := Int → Dom.Element → Conversion (List Node)

/-- The answer of a rule, if there is a rule and it has one. -/
def askHook (rule : Option ElementRule) (node : Dom.Node) (indent : Int) :
    Conversion (Option (List Node)) :=
  match rule with
  | none => return none
  | some ask =>
    match ask node indent with
    | .error fault => Traced.fail (.hook fault)
    | .ok answer => return answer

/-- A child as a note shows it: an element by its name, and a string by its
    first forty characters. -/
def shownNode : Dom.Node → List Char
  | .element tag _ => '<' :: (tag.name.toList ++ ['>'])
  | .text content => content.toList.take 40
  | .special _ content => content.toList.take 40

/-- A URL without the domain that the options cut off. -/
def relativize (o : Options) (url : String) : Conversion String :=
  match o.websiteDomain with
  | none => return url
  | some (.text domain) => return (dropStart? domain url).getD url
  | some (.notText kind) => Traced.fail (.domainNotText kind)

/-- The URLs that hold an image themselves. -/
def isInlineImage (url : String) : Bool := "data:image".toList.isPrefixOf url.toList

/-- What is written instead of a URL that holds an image itself. -/
def inlineImageUrl : String := "-"

/-- The number of columns or rows that an attribute asks for; one unless it
    spells a greater integer. -/
def spanOf (tag : Dom.Tag) (name : String) : Nat :=
  match tag.text? name with
  | none => 1
  | some value => max 1 ((Number.readInteger? value.toList).getD 1).toNat

/-- A span as a mark of a cell: spans of one are not marked. -/
def spanMark (span : Nat) : Option Int := if 1 < span then some (span : Int) else none

/-- The id of a column. -/
def columnId (position : Nat) : String := "col-" ++ String.ofList (Number.naturalText position)

/-- The id of the column that a cell begins in, if columns are marked. A position
    of too many digits has none. -/
def columnMark (o : Options) (position : Nat) : Conversion (Option String) :=
  if o.trackTableColumns then
    if (Number.boundedNaturalText? position).isSome then return some (columnId position)
    else Traced.fail (.tooManyDigits none)
  else return none

/-- A link. Text alone becomes one text, and other contents are lowered. -/
def lowerLink (o : Options) (lower : Descent) (indent : Int) (e : Dom.Element) :
    Conversion Node := do
  let href := (e.tag.text? "href").getD "#"
  if isInlineImage href then
    return .link inlineImageUrl (← lower indent e)
  else
    let href ← relativize o href
    if e.holdsOnlyText then return .link href [.text (String.ofList (Text.trim e.text))]
    else return .link href (← lower indent e)

/-- An image with its escaped alternative text. -/
def lowerImage (o : Options) (e : Dom.Element) : Conversion Node := do
  let alt := (e.tag.text? "alt").map Markdown.escapeText
  let src := e.tag.shown "src"
  if isInlineImage src then return .image inlineImageUrl alt
  else return .image (← relativize o src) alt

/-- A video with its escaped poster. -/
def lowerVideo (e : Dom.Element) : Node :=
  .video ((e.tag.filled? "src").getD (.text "")) ((e.tag.text? "poster").map Markdown.escapeText)
    (if e.tag.hasAttr "controls" then some true else none)

/-- The language that a class name gives to code: what follows `language-` up to
    an optional line feed at the end, if that is not empty and has no blank. -/
def languageOf? (className : String) : Option String :=
  match dropStart? "language-" className with
  | none => none
  | some rest =>
    let name := rest.toList
    let name := if name.getLast? = some '\n' then name.dropLast else name
    if name.isEmpty ∨ name.any Text.isBlank then none else some (String.ofList name)

/-- Code without the blank around it, and nothing when all is blank. Code
    directly in a `pre` element stands on lines of its own. -/
def lowerCode (e : Dom.Element) : List Node :=
  let text := Text.trim e.text
  if text.isEmpty then []
  else
    [.code (String.ofList text) (e.tag.classes.findSome? languageOf?) (e.parent != "pre")]

/-- A cell that begins at a column. Text alone is escaped, and other contents are
    lowered one indent level further in. -/
def lowerCell (o : Options) (lower : Descent) (indent : Int) (position : Nat) (e : Dom.Element) :
    Conversion Cell := do
  let marks := fun (colId : Option String) =>
    CellMarks.mk colId (spanMark (spanOf e.tag "colspan")) (spanMark (spanOf e.tag "rowspan"))
  if e.holdsOnlyText then
    return .plain (String.ofList (Markdown.escape (Text.trim e.text)))
      (marks (← columnMark o position))
  else
    let content ← lower (indent + 1) e
    return .rich content (marks (← columnMark o position))

/-- The cells of a row from a column on. -/
def lowerCells (o : Options) (lower : Descent) (indent : Int) :
    Nat → List Dom.Element → Conversion (List Cell)
  | _, [] => return []
  | position, e :: rest => do
    let cell ← lowerCell o lower indent position e
    let cells ← lowerCells o lower indent (position + spanOf e.tag "colspan") rest
    return cell :: cells

/-- The elements that are cells of a row. -/
def cellElements (row : Dom.Element) : List Dom.Element :=
  row.descendants.filter fun e => e.name == "th" || e.name == "td"

/-- The row that separates the header of a table from its body. -/
def separatorRow (width : Nat) : List Cell := List.replicate width (.plain "---" CellMarks.none)

/-- A table. Its rows are all row elements below it, in document order. When the
    first one has a header cell, a separator follows it. -/
def lowerTable (o : Options) (lower : Descent) (indent : Int) (e : Dom.Element) :
    Conversion Node := do
  let rowElements := e.named "tr"
  let rows ← Traced.each (fun row => lowerCells o lower indent 0 (cellElements row)) rowElements
  let width := ((rows.head?.map Markdown.rowWidth).getD 0).toNat
  let colIds := if o.trackTableColumns then some ((List.range width).map columnId) else none
  match rows, rowElements with
  | first :: others, header :: _ =>
    if (header.first? "th").isSome then return .table (first :: separatorRow width :: others) colIds
    else return .table rows colIds
  | _, _ => return .table rows colIds

/-- The nodes for an element, by its category. -/
def lowerElement (o : Options) (lower : Descent) (indent : Int) (e : Dom.Element) :
    Conversion (List Node) := do
  let category := Dom.categoryOf o.metadata.wanted e.name
  Traced.debugIf o.debug ("<" ++ e.name ++ "> -> " ++ category.label)
  match category with
  | .heading level =>
    if Text.isAllBlank e.text then return []
    else return [.heading level (← lower indent e)]
  | .paragraph => return (← lower indent e) ++ [.text "\n\n"]
  | .link => return [← lowerLink o lower indent e]
  | .image => return [← lowerImage o e]
  | .video => return [lowerVideo e]
  | .list => return [.list (e.name == "ol") (← Traced.each (lower (indent + 1)) e.children)]
  | .lineBreak => return [.text "\n"]
  | .table => return [← lowerTable o lower indent e]
  | .head => return [.metadata (← extractMetadata o.metadata.isExtended e)]
  | .dropped => return []
  | .emphasis style =>
    if Text.isAllBlank e.text then return []
    else return [.emphasis style (← lower indent e)]
  | .code => return lowerCode e
  | .quote => return [.quote (← lower indent e)]
  | .semantic element => return [.semantic element (← lower indent e)]
  | .unhandled =>
    match ← askHook (o.shownTo o.unhandledElement) (.element e.tag e.nodes) indent with
    | some (node :: nodes) => return node :: nodes
    | _ => lower (indent + 1) e

/-- The nodes for a text: the text without the blank around it, if anything is
    left. -/
def lowerText (o : Options) (content : String) : Conversion (List Node) :=
  let text := Text.trim content.toList
  if text.isEmpty then return []
  else do
    Traced.debugIf o.debug
      (String.ofList ("Text node: ".toList ++ Text.quote (text.take 40)))
    return [.text (String.ofList text)]

/-- The nodes for a child of an element. The hook is asked first; an answer
    without nodes is no answer. -/
def lowerChild (o : Options) (lower : Descent) (indent : Int) (parent : Dom.Element)
    (child : Dom.Node) : Conversion (List Node) := do
  match ← askHook (o.shownTo o.overrideElement) child indent with
  | some (node :: nodes) =>
    Traced.debugIf o.debug
      (String.ofList ("Element processing overridden for ".toList ++ Text.quote (shownNode child)))
    return node :: nodes
  | _ =>
    match child with
    | .text content => lowerText o content
    | .special .. => return []
    | .element tag nodes => lowerElement o lower indent ⟨parent.name, parent.innerRole, tag, nodes⟩

/-- The text of an element whose structure is not kept, with a warning. -/
def flatten (o : Options) (e : Dom.Element) : Conversion (List Node) := do
  Traced.warn ("Nesting deeper than " ++ String.ofList (Number.integerText o.maxDepth.shown) ++
    " levels inside <" ++ e.name ++ ">; flattening to text")
  let text := e.spacedText
  return if text.isEmpty then [] else [.text (String.ofList text)]

/-- The nodes for the children of an element, with the number of levels that may
    still keep their structure. -/
def lowerLevels (o : Options) : Nat → Descent
  | 0, _, e => flatten o e
  | levels + 1, indent, e => Traced.collect (lowerChild o (lowerLevels o levels) indent e) e.nodes

/-- The number of levels that keep their structure: one more than the greatest
    depth within the limit, or as many as the element has when all depths are. -/
def levelsWithin (limit : DepthLimit) (e : Dom.Element) : Nat :=
  match limit.deepest? with
  | some depth => (depth + 1).toNat
  | none => Dom.heightOf e.nodes + 1

/-- The nodes for the children of an element at the top of a conversion, where
    all the levels of the options are left. -/
def lower (o : Options) (indent : Int) (e : Dom.Element) : Conversion (List Node) :=
  match o.maxDepth with
  | .unordered kind => Traced.fail (.limitUnordered kind)
  | limit => lowerLevels o (levelsWithin limit e) indent e

end PageDistill
