import PageDistill.Markup.Completing
import PageDistill.Text.Utf8

/-!
# Reading Pages

The page that a text of markup stands for, in either of the two ways to read
it.

Tokens are put together from left to right. A string that only lays out the source
is then brought down to one line end or one space, except where layout counts.

Before a page is completed, its text is put in order: a byte order mark at the
front is dropped, line ends are unified, and the null character is replaced.

## Main definitions

* `collapseBlank`: Strings that only lay out the source, brought down.
* `orderedText`: The text of a page put in order.
* `readNodes`: The nodes of a text.
* `readPage`: The page of a text.
-/

namespace PageDistill

namespace Markup

/-- The elements in which the layout of text counts. -/
def layoutElements : List String := ["pre", "textarea"]

/-- A string that only lays out the source becomes a line end if it has one, and a
    space otherwise. -/
def collapsed (content : String) : String :=
  let s := content.toList
  if s.all isMarkupBlank then (if s.contains '\n' then "\n" else " ") else content

mutual

/-- A node with the strings that only lay out the source brought down. -/
def collapseNode (keep : Bool) : Dom.Node → Dom.Node
  | .text content => .text (if keep then content else collapsed content)
  | .special kind content => .special kind (if keep then content else collapsed content)
  | .element tag children =>
    .element tag (collapseBlank (keep || layoutElements.contains tag.name) children)

/-- Nodes with the strings that only lay out the source brought down. -/
def collapseBlank (keep : Bool) : List Dom.Node → List Dom.Node
  | [] => []
  | node :: nodes => collapseNode keep node :: collapseBlank keep nodes

end

/-- A text without the byte order mark that it may begin with. -/
def withoutOrderMark (s : List Char) : List Char :=
  match s with
  | c :: rest => if c.toNat = 0xFEFF then rest else s
  | [] => []

/-- The text of a page put in order. -/
def orderedText (s : List Char) : List Char :=
  (Text.unifyLineEnds (withoutOrderMark s)).map fun c =>
    if c.toNat = 0 then Char.ofNat 0xFFFD else c

/-- The nodes that a text stands for, put together from its tokens. -/
def readNodes (completion : Completion) (s : List Char) : List Dom.Node :=
  match completion with
  | .asWritten =>
    let start : Progress := ⟨[], []⟩
    ((tokens completion s).foldl Progress.take start).finish
  | .completed =>
    let start : Completing := ⟨⟨[], []⟩, false, false, 0⟩
    ((tokens completion (orderedText s)).foldl Completing.take start).progress.finish

/-- The page of a text. -/
def readPage (completion : Completion) (s : List Char) : Dom.Document :=
  ⟨collapseBlank false (readNodes completion s)⟩

end Markup

end PageDistill
