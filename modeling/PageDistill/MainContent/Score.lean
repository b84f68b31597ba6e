import PageDistill.Dom.Element
import PageDistill.Number.Binary64

/-!
# Scoring Elements

How likely an element is to hold the main content of its page, as a sum of
points.

Class names and ids that page authors give to content count most, then an
attribute or a role that marks content, then the kind of element, the number of
paragraphs, the length of the text, and a low share of links. No feature takes
points away.

The share of links is the length of the text in links over the length of all
text. It is compared with three tenths as a quotient of natural numbers; as a
binary64 number it is only shown.

## Main definitions

* `contentNames`, `contentElements`: The names that suggest content.
* `linkLength`, `textLength`: The two lengths behind the share of links.
* `linkDensity`: The share of links as a number.
* `score`: The points of an element.
-/

namespace PageDistill

namespace MainContent

/-- The class names and ids that suggest content. -/
def contentNames : List String := ["article", "content", "main-container", "main", "main-content"]

/-- The names of elements that suggest content, compared exactly. -/
def contentElements : List String := ["article", "main", "section"]

/-- The length of the text in the links below an element. Nested links count
    their text each. -/
def linkLength (e : Dom.Element) : Nat :=
  (e.named "a").foldr (fun a rest => a.text.length + rest) 0

/-- The length of the text of an element; an element without text counts as one
    character. -/
def textLength (e : Dom.Element) : Nat := max 1 e.text.length

/-- The share of links in the text of an element. -/
def linkDensity (e : Dom.Element) : Binary64 :=
  Binary64.ofQuotient false (linkLength e) (textLength e)

/-- Whether less than three tenths of the text are in links. -/
def hasFewLinks (e : Dom.Element) : Bool := 10 * linkLength e < 3 * textLength e

/-- Ten points for each name of content among the class names or as the id. -/
def namePoints (e : Dom.Element) : Nat :=
  let hits := contentNames.filter fun name =>
    e.tag.hasClass name || e.tag.text? "id" == some name
  10 * hits.length

/-- Five points for an element of content. -/
def elementPoints (e : Dom.Element) : Nat := if contentElements.contains e.name then 5 else 0

/-- A point for each paragraph, up to five. -/
def paragraphPoints (e : Dom.Element) : Nat := min (e.named "p").length 5

/-- A point for each two hundred characters of trimmed text, up to five, once the
    text is longer than that. -/
def lengthPoints (e : Dom.Element) : Nat :=
  let length := (Text.trim e.text).length
  if 200 < length then min (length / 200) 5 else 0

/-- Five points for few links. -/
def linkPoints (e : Dom.Element) : Nat := if hasFewLinks e then 5 else 0

/-- Ten points for an attribute that marks content. -/
def attributePoints (e : Dom.Element) : Nat :=
  if e.tag.hasAttr "data-main" || e.tag.hasAttr "data-content" then 10 else 0

/-- Ten points for a role in which the word `main` occurs. -/
def rolePoints (e : Dom.Element) : Nat :=
  match e.tag.text? "role" with
  | some role => if Text.occursIn "main".toList role.toList then 10 else 0
  | none => 0

/-- The points of an element. -/
def score (e : Dom.Element) : Nat :=
  namePoints e + elementPoints e + paragraphPoints e + lengthPoints e + linkPoints e +
    attributePoints e + rolePoints e

end MainContent

end PageDistill
