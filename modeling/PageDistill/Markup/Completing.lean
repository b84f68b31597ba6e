import PageDistill.Markup.Nesting
import PageDistill.Markup.Progress

/-!
# Completing Pages

What a token does to the state of reading when the page is completed.

A start tag first ends the open elements that cannot hold its element, innermost
first. Then the root, the head or the body is opened if the element needs it and
it has not been there yet. A second root, a head that is not directly in the root
and a body inside a body are misplaced: neither their start tags nor as many end
tags of these three count.

Text that is not blank needs a body too, unless it stands in some other element.
The blank before it stays where it is.

An end tag ends the innermost open element of its name with all inside it, but not
across an element that weighs more.

## Main definitions

* `Completing`: The state.
* `Completing.makeRoom`, `Completing.imply`: What happens before an element begins.
* `Completing.startTag`, `Completing.endTag`, `Completing.text`: The tokens.
* `Completing.take`: The state after a token.
-/

namespace PageDistill

namespace Markup

/-- The state of completing a page: the elements that are open, whether a head and a
    body have been opened, and the number of misplaced tags whose end tags are
    still to come. -/
structure Completing where
  progress : Progress
  headSeen : Bool
  bodySeen : Bool
  misplaced : Nat

/-- The three elements that a page has once. -/
def frameworkElements : List String := ["html", "head", "body"]

namespace Completing

/-- The names of the open elements, innermost first. -/
def names (c : Completing) : List String := c.progress.names

/-- Opens an element. -/
def push (c : Completing) (tag : Dom.Tag) : Completing :=
  { c with
    progress := c.progress.push tag
    headSeen := c.headSeen || tag.name == "head"
    bodySeen := c.bodySeen || tag.name == "body" }

/-- Closes the innermost open elements up to the given number. -/
def close (n : Nat) (c : Completing) : Completing := { c with progress := c.progress.close n }

/-- Ends the open elements that cannot hold an element, as long as one of them is
    the innermost. -/
def makeRoom (name : String) (c : Completing) : Completing :=
  c.close (c.names.takeWhile fun opened => endsAtStart opened name).length

/-- Opens the root if nothing is open. -/
def implyRoot (c : Completing) : Completing :=
  if c.names.isEmpty then c.push ⟨"html", []⟩ else c

/-- Opens the head or the body that an element in the root needs, if neither is open
    and it has not been there yet. -/
def implyPart (name : String) (c : Completing) : Completing :=
  if c.names.length ≤ 1 ∧ headElements.contains name then
    if c.headSeen || c.bodySeen then c else c.push ⟨"head", []⟩
  else if frameElements.contains name ∨ c.bodySeen ∨ c.names.contains "head" then c
  else c.push ⟨"body", []⟩

/-- Opens what an element needs around it. -/
def imply (name : String) (c : Completing) : Completing :=
  if name = "html" then c
  else if name = "head" ∨ name = "body" then c.implyRoot
  else c.implyRoot.implyPart name

/-- Whether an element cannot stand here because the page has it elsewhere. -/
def isMisplaced (name : String) (c : Completing) : Bool :=
  (name == "html" && !c.names.isEmpty) || (name == "head" && c.names.length != 1) ||
    (name == "body" && c.names.contains "body")

/-- The state after a start tag. -/
def startTag (c : Completing) (tag : Dom.Tag) (isClosed : Bool) : Completing :=
  let c := (c.makeRoom tag.name).imply tag.name
  if c.isMisplaced tag.name then { c with misplaced := c.misplaced + 1 }
  else if isClosed || Completion.completed.isVoid tag.name then (c.push tag).close 1
  else c.push tag

/-- The state after an end tag. -/
def endTag (c : Completing) (name : String) : Completing :=
  if 0 < c.misplaced ∧ frameworkElements.contains name then
    { c with misplaced := c.misplaced - 1 }
  else
    match c.names.findIdx? (· == name) with
    | none => c
    | some depth =>
      if (c.names.take depth).any fun inner => endWeight name < endWeight inner then c
      else c.close (depth + 1)

/-- The state after text. -/
def text (c : Completing) (content : List Char) : Completing :=
  let isInside := c.names.head?.any fun inner => inner != "html" && inner != "head"
  let blank := if isInside then [] else content.takeWhile isMarkupBlank
  let rest := content.drop blank.length
  let c := { c with progress := c.progress.addText blank }
  let c := if isInside ∨ rest.isEmpty then c else (c.makeRoom "p").imply "p"
  { c with progress := c.progress.addText rest }

/-- The state after a token. -/
def take (c : Completing) : Token → Completing
  | .startTag name attrs isClosed => c.startTag ⟨name, attrs⟩ isClosed
  | .endTag name => c.endTag name
  | .text content => c.text content
  | .special kind content =>
    { c with progress := c.progress.add (.special kind (String.ofList content)) }

end Completing

end Markup

end PageDistill
