import PageDistill.Dom.Element
import PageDistill.Markup.Token

/-!
# Putting Elements Together

The state of reading a page, and what a token does to it when the page is read as
it was written.

The state holds the elements that are open, innermost first, with the nodes read
into each so far in reverse. An end tag closes the innermost open element of its
name with all elements inside it, and one that fits none is dropped. Text that
follows text joins it.

## Main definitions

* `Open`, `Progress`: The elements that are open, and the state of reading.
* `Progress.add`, `Progress.push`, `Progress.close`: What can happen to it.
* `Progress.take`: The state after a token.
* `Progress.finish`: The nodes of the page at the end.
-/

namespace PageDistill

namespace Markup

/-- An open element with the nodes read into it so far, last one first. -/
structure Open where
  tag : Dom.Tag
  nodes : List Dom.Node

/-- The elements that are open, innermost first, and the nodes at the top of the
    page, last one first. -/
structure Progress where
  opened : List Open
  top : List Dom.Node

/-- A node after the nodes before it, which stand last one first. Text joins
    text. -/
def pushNode (node : Dom.Node) (before : List Dom.Node) : List Dom.Node :=
  match node, before with
  | .text content, .text earlier :: others => .text (earlier ++ content) :: others
  | node, before => node :: before

namespace Progress

/-- Adds a node to the innermost open element. -/
def add (p : Progress) (node : Dom.Node) : Progress :=
  match p.opened with
  | [] => { p with top := pushNode node p.top }
  | inner :: outer =>
    { p with opened := { inner with nodes := pushNode node inner.nodes } :: outer }

/-- The element that an open element becomes when it is closed. -/
def closed (o : Open) : Dom.Node := .element o.tag o.nodes.reverse

/-- Closes the innermost open elements up to the given number. -/
def close : Nat → Progress → Progress
  | 0, p => p
  | n + 1, p =>
    match p.opened with
    | [] => p
    | inner :: outer => close n (({ p with opened := outer } : Progress).add (closed inner))

/-- Adds text to the innermost open element; no text is nothing. -/
def addText (p : Progress) (content : List Char) : Progress :=
  if content.isEmpty then p else p.add (.text (String.ofList content))

/-- Opens an element. -/
def push (p : Progress) (tag : Dom.Tag) : Progress := { p with opened := ⟨tag, []⟩ :: p.opened }

/-- The names of the open elements, innermost first. -/
def names (p : Progress) : List String := p.opened.map fun o => o.tag.name

/-- The state after an end tag. -/
def endTag (p : Progress) (name : String) : Progress :=
  match p.names.findIdx? (· == name) with
  | some depth => p.close (depth + 1)
  | none => p

/-- The state after a token, when a page is read as it was written. -/
def take (p : Progress) : Token → Progress
  | .startTag name attrs isClosed =>
    if isClosed ∨ Completion.asWritten.isVoid name then p.add (.element ⟨name, attrs⟩ [])
    else p.push ⟨name, attrs⟩
  | .endTag name => p.endTag name
  | .text content => p.addText content
  | .special kind content => p.add (.special kind (String.ofList content))

/-- The page when there are no more tokens: all open elements are closed. -/
def finish (p : Progress) : List Dom.Node := (p.close p.opened.length).top.reverse

end Progress

end Markup

end PageDistill
