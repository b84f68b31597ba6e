import PageDistill.ConversionError
import PageDistill.Markdown.Escape
import PageDistill.Markdown.Spacing
import PageDistill.Markdown.TableLayout
import PageDistill.Options
import PageDistill.Text.Percent

/-!
# Rendering the Semantic Tree

The Markdown of a list of nodes.

Nodes are rendered one after another onto what is there already. The hook on
nodes is asked first for every node that is met; an answer stands as it is.
Inline nodes and blocks are then put after one another as `Spacing` says, and
nodes that are neither leave no trace. Whether a block is kept apart from what
follows depends on the next node as it stands in the list, before any hook.

Contents of inline nodes, headings, quotes and semantic elements are rendered by
themselves and trimmed. Items and cells are rendered one indent level further
in, and so is a link that needs the longer of its two forms.

## Main definitions

* `askNodeHook`: The answer of a rule for nodes.
* `shortLink?`: The short form of a link, where it has one.
* `renderNodes`: The rendering of a list of nodes after what is there.
* `Node.body`: The rendering of one node by itself.
* `renderContent`: The Markdown of a list of nodes.
-/

namespace PageDistill

namespace Markdown

/-- A rendering, or the refusal of a hook. -/
abbrev Rendering := Except ConversionError (List Char)

/-- The answer of a rule, if there is a rule and it has one. -/
def askNodeHook (rule : Option NodeRule) (node : Node) (indent : Int) :
    Except ConversionError (Option String) :=
  match rule with
  | none => .ok none
  | some ask =>
    match ask node indent with
    | .error fault => .error (.hook fault)
    | .ok answer => .ok answer

/-- A text as the destination of a link or an image. -/
def destination (url : String) : List Char := Text.percentEncode url.toList

/-- The short form of a link: its only text between brackets, if that is trimmed
    and on one line. -/
def shortLink? (href : String) (content : List Node) : Option (List Char) :=
  match content with
  | [.text content] =>
    let text := content.toList
    if text = Text.trim text ∧ !text.contains '\n' then
      some ('[' :: (text ++ ']' :: '(' :: (destination href ++ [')'])))
    else none
  | _ => none

/-- The long form of a link around its rendered content. -/
def longLink (href : String) (inner : List Char) : List Char :=
  "<a href=\"".toList ++ destination href ++ "\">".toList ++ inner ++ "</a>".toList

/-- The characters that are dropped from the ends of an alternative text: the
    common blanks and the characters without width. -/
def isAltTrim (c : Char) : Bool :=
  " \t\n\r".toList.contains c ||
    [0xB, 0xC, 0xA0, 0x200B, 0x200C, 0x200D, 0xFEFF].contains c.toNat

/-- An image. One that has an alternative text but no source is left out. -/
def imageText (src : String) (alt : Option String) : List Char :=
  let shown := Text.trimBy isAltTrim (alt.getD "").toList
  if !shown.isEmpty ∧ src = "" then []
  else "![".toList ++ shown ++ "](".toList ++ destination src ++ [')']

/-- A video with its poster and its controls, each on a line. -/
def videoText (src : Dom.AttrValue) (poster : Option String) (controls : Option Bool) : List Char :=
  let first := "![Video](".toList ++ src.display.toList ++ [')']
  let second :=
    match poster with
    | some url => if url = "" then [] else ["![Poster](".toList ++ url.toList ++ [')']]
    | none => []
  let third :=
    match controls with
    | some true => ["Controls: true".toList]
    | some false => ["Controls: false".toList]
    | none => []
  Text.joinWith ['\n'] (first :: (second ++ third))

/-- The mark that delimits code inside a line. -/
def codeMark : List Char := [graveAccent]

/-- The mark that begins and ends a block of code. -/
def codeFence : List Char := List.replicate 3 graveAccent

/-- Code inside a line. -/
def inlineCode (content : String) : List Char := codeMark ++ content.toList ++ codeMark

/-- Code on lines of its own, with its language. -/
def codeBlock (content : String) (language : Option String) : List Char :=
  codeFence ++ (language.getD "").toList ++ '\n' :: (content.toList ++ '\n' :: codeFence)

/-- The mark of an emphasis, on both sides of the text. -/
def Emphasis.mark : Emphasis → List Char
  | .bold => ['*', '*']
  | .italic => ['*']
  | .strikethrough => ['~', '~']

/-- A heading line. -/
def headingLine (level : Int) (inner : List Char) : List Char :=
  List.replicate level.toNat '#' ++ ' ' :: inner

/-- A quote: its mark before every line. -/
def quoteText (inner : List Char) : List Char :=
  if inner.isEmpty then ['>']
  else
    let lines := Text.splitOn '\n' inner
    Text.joinWith ['\n'] (lines.map fun line => Text.trimEnd ('>' :: ' ' :: line))

/-- A semantic element around its rendered content. An article stands bare, a
    section between rules, and any other between comments that name it. -/
def semanticText (element : String) (inner : List Char) : List Char :=
  if inner.isEmpty then []
  else if element = "article" then inner
  else if element = "section" then "---\n\n".toList ++ inner ++ "\n\n---".toList
  else
    "<!-- ".toList ++ element.toList ++ " -->\n".toList ++ inner ++ "\n<!-- /".toList ++
      element.toList ++ " -->".toList

/-- The line of a list item at an indent level; a negative level indents nothing. -/
def itemLine (indent : Int) (ordered : Bool) (number : Nat) (inner : List Char) : List Char :=
  let marker := if ordered then Number.naturalText number ++ ['.'] else ['-']
  let start := List.replicate (2 * indent.toNat) ' ' ++ marker
  if inner.isEmpty then start else start ++ ' ' :: inner

/-- Whether a node is a section, which has a blank line before it. -/
def Node.isSection : Node → Bool
  | .semantic element _ => element = "section"
  | _ => false

/-- Whether a node is a heading, which has a blank line after it. -/
def Node.isHeading : Node → Bool
  | .heading .. => true
  | _ => false

/-- Whether a block is kept apart from the nodes that follow it. -/
def isApart (node : Node) (rest : List Node) : Bool :=
  node.isHeading ||
    match rest with
    | next :: _ => next.isBlock
    | [] => false

mutual

/-- The rendering of nodes after what is there. -/
def renderNodes (o : Options) (indent : Int) (out : List Char) : List Node → Rendering
  | [] => .ok out
  | node :: rest => do
    match ← askNodeHook (o.shownTo o.overrideNode) node indent with
    | some text => renderNodes o indent (out ++ text.toList) rest
    | none =>
      match node with
      | .custom payload =>
        let answer ← askNodeHook (o.shownTo o.renderCustom) (.custom payload) indent
        renderNodes o indent (out ++ (answer.getD "").toList) rest
      | node =>
        if node.isInline then
          let piece ← node.body o indent
          renderNodes o indent (appendInline out piece) rest
        else if node.isBlock then
          let block ← node.body o indent
          renderNodes o indent (appendBlock node.isSection (isApart node rest) out block) rest
        else renderNodes o indent out rest

/-- The rendering of an inline node or a block by itself; other nodes have
    none. -/
def Node.body (o : Options) (indent : Int) : Node → Rendering
  | .text content => .ok content.toList
  | .emphasis style content => do
    let inner ← renderNodes o indent [] content
    return style.mark ++ Text.trim inner ++ style.mark
  | .link href content =>
    match shortLink? href content with
    | some text => .ok text
    | none => do
      let inner ← renderNodes o (indent + 1) [] content
      return longLink href (Text.trim inner)
  | .heading level content => do
    let inner ← renderNodes o indent [] content
    return headingLine level (Text.trim inner)
  | .image src alt => .ok (imageText src alt)
  | .video src poster controls => .ok (videoText src poster controls)
  | .list ordered items => do
    let lines ← renderItems o indent ordered 1 items
    return Text.joinWith ['\n'] lines
  | .table rows _ =>
    if tableWidth rows = 0 then .ok []
    else do
      let lines ← renderRows o indent (tableWidth rows) rows
      return Text.joinWith ['\n'] lines
  | .code content language inline =>
    .ok (if inline then inlineCode content else codeBlock content language)
  | .quote content => do
    let inner ← renderNodes o indent [] content
    return quoteText (Text.trim inner)
  | .semantic element content => do
    let inner ← renderNodes o indent [] content
    return semanticText element (Text.trim inner)
  | _ => .ok []

/-- The lines of list items, numbered from a number on. -/
def renderItems (o : Options) (indent : Int) (ordered : Bool) (number : Nat) :
    List (List Node) → Except ConversionError (List (List Char))
  | [] => .ok []
  | item :: items => do
    let inner ← renderNodes o (indent + 1) [] item
    let lines ← renderItems o indent ordered (number + 1) items
    return itemLine indent ordered number (Text.trim inner) :: lines

/-- The lines of the rows of a table of some width. -/
def renderRows (o : Options) (indent : Int) (width : Int) :
    List (List Cell) → Except ConversionError (List (List Char))
  | [] => .ok []
  | row :: rows => do
    let pieces ← renderRow o indent row
    let lines ← renderRows o indent width rows
    return tableLine width row pieces :: lines

/-- The pieces of the cells of a row. -/
def renderRow (o : Options) (indent : Int) :
    List Cell → Except ConversionError (List (List Char))
  | [] => .ok []
  | .plain text marks :: cells => do
    let pieces ← renderRow o indent cells
    return cellPieces marks text.toList ++ pieces
  | .rich content marks :: cells => do
    let inner ← renderNodes o (indent + 1) [] content
    let pieces ← renderRow o indent cells
    return cellPieces marks (Text.trim inner) ++ pieces

end

/-- The Markdown of nodes at an indent level, without front matter. -/
def renderContent (o : Options) (indent : Int) (nodes : List Node) : Rendering :=
  renderNodes o indent [] nodes

end Markdown

end PageDistill
