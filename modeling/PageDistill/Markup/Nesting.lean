/-!
# What Ends an Element

When a page is completed, an element may end before its end tag. The start tag of
an element that cannot stand in it ends it, as a list item ends the one before it.
And the end tag of an element ends all that is still open in it, unless an element
that weighs more stands in between.

An element may also begin before its start tag. What only a head can hold begins
one when nothing but the root is open, and everything else begins a body.

## Main definitions

* `endsAtStart`: Whether a start tag ends an open element.
* `endWeight`: How much an element resists the end tags of others.
* `headElements`, `frameElements`: The elements that begin a head, and those that
  begin nothing.
-/

namespace PageDistill

namespace Markup

/-- The names of the headings. -/
def headingNames : List String := ["h1", "h2", "h3", "h4", "h5", "h6"]

/-- The parts of a table around its rows. -/
def rowGroupNames : List String := ["tbody", "tfoot"]

/-- The start tags that end a head. -/
def endsHead : List String :=
  ["a", "abbr", "acronym", "address", "b", "bdo", "big", "blockquote", "body", "br", "center",
    "cite", "code", "dd", "dfn", "dir", "div", "dl", "dt", "em", "fieldset", "font", "form",
    "frameset"] ++ headingNames ++
  ["hr", "i", "iframe", "img", "kbd", "li", "listing", "map", "menu", "ol", "p", "pre", "q", "s",
    "samp", "small", "span", "strike", "strong", "sub", "sup", "table", "tt", "u", "ul", "var",
    "xmp"]

/-- The start tags that end a paragraph. -/
def endsParagraph : List String :=
  ["address", "blockquote", "body", "caption", "center", "col", "colgroup", "dd", "dir", "div",
    "dl", "dt", "fieldset", "form", "frameset"] ++ headingNames ++
  ["head", "hr", "li", "listing", "menu", "ol", "p", "pre", "table", "tbody", "td", "tfoot", "th",
    "title", "tr", "ul", "xmp"]

/-- The start tags that end an element of preformatted text. -/
def endsPreformatted : List String :=
  ["dd", "dl", "dt", "fieldset", "form", "li", "table", "ul"]

/-- The start tags that end an open element of each name. -/
def startsThatEnd : List (String × List String) :=
  [("a", ["a", "fieldset", "table", "td", "th"]),
    ("address", ["dd", "dl", "dt", "form", "li", "ul"]),
    ("b", ["center", "p", "td", "th"]),
    ("big", ["p"]),
    ("caption", ["col", "colgroup", "tbody", "tfoot", "thead", "tr"]),
    ("col", ["col", "colgroup", "tbody", "tfoot", "thead", "tr"]),
    ("colgroup", ["colgroup", "tbody", "tfoot", "thead", "tr"]),
    ("dd", ["dt"]),
    ("dir", ["dd", "dl", "dt", "form", "ul"]),
    ("dl", ["form", "li"]),
    ("dt", ["dd", "dl"]),
    ("font", ["center", "td", "th"]),
    ("form", ["form"]),
    ("head", endsHead),
    ("hr", ["form"]),
    ("i", ["center", "p"]),
    ("legend", ["fieldset"]),
    ("li", ["li"]),
    ("link", ["body", "frameset"]),
    ("listing", endsPreformatted),
    ("menu", ["dd", "dl", "dt", "form", "ul"]),
    ("ol", ["form"]),
    ("option", ["optgroup", "option"]),
    ("p", endsParagraph),
    ("pre", endsPreformatted),
    ("s", ["p"]),
    ("script", ["noscript"]),
    ("small", ["p"]),
    ("span", ["td", "th"]),
    ("strike", ["p"]),
    ("style", ["body", "frameset"]),
    ("tbody", rowGroupNames),
    ("td", ["tbody", "td", "tfoot", "th", "tr"]),
    ("tfoot", ["tbody"]),
    ("th", ["tbody", "td", "tfoot", "th", "tr"]),
    ("thead", rowGroupNames),
    ("title", ["body", "frameset"]),
    ("tr", ["tbody", "tfoot", "tr"]),
    ("tt", ["p"]),
    ("u", ["p", "td", "th"]),
    ("ul", ["address", "form", "menu", "pre"]),
    ("xmp", endsPreformatted)]

/-- The start tags that end an open heading. -/
def endsHeading : List String := ["fieldset", "form", "li", "p", "table"]

/-- Whether a start tag of a name ends an open element. -/
def endsAtStart (opened start : String) : Bool :=
  (headingNames.contains opened && endsHeading.contains start) ||
    startsThatEnd.any fun (name, starts) => name == opened && starts.contains start

/-- The elements that resist the end tags of others, with their weights. -/
def endWeights : List (String × Nat) :=
  [("div", 150), ("td", 160), ("th", 160), ("tr", 170), ("thead", 180), ("tbody", 180),
    ("tfoot", 180), ("table", 190), ("head", 200), ("body", 200), ("html", 220)]

/-- How much an element resists the end tags of others. -/
def endWeight (name : String) : Nat :=
  match endWeights.find? fun entry => entry.1 == name with
  | some (_, weight) => weight
  | none => 100

/-- The elements that begin a head. -/
def headElements : List String := ["script", "style", "meta", "link", "title", "base"]

/-- The elements that begin neither a head nor a body. -/
def frameElements : List String := ["noframes", "frame", "frameset"]

end Markup

end PageDistill
