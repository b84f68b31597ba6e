import PageDistill.Dom.Element
import PageDistill.Text.Fold

/-!
# Naming the Encoding of Markup

A page with the encoding of its markup in the places where it names one.

A page names its encoding in a `meta` element, by an attribute of that meaning or
in a content type. What it names is how it was read, so when its elements are
written again, in UTF-8, that name is no longer true. It is replaced here before
the elements are written. Every part of a content type that names an encoding is
replaced from the name on up to the next semicolon.

## Main definitions

* `writtenEncoding`: The encoding of written markup.
* `encodedType`: A content type that names it.
* `withEncoding`: A tag that names it.
* `encodeNodes`, `encodeElement`: Nodes and elements that name it.
-/

namespace PageDistill

namespace Markup

/-- The encoding of written markup. -/
def writtenEncoding : String := "utf-8"

/-- A part of a content type with the encoding of written markup, if it names one:
    the first `charset=` at the front or after a blank, and all that follows it. -/
def encodedPart (mayBegin : Bool) : List Char → List Char
  | [] => []
  | c :: rest =>
    if mayBegin && "charset=".toList.isPrefixOf (c :: rest) then
      "charset=".toList ++ writtenEncoding.toList
    else c :: encodedPart (Text.isBlank c) rest

/-- A content type with the encoding of written markup in each of its parts that
    names one. -/
def encodedType (s : String) : String :=
  let parts := (Text.splitOn ';' s.toList).map (encodedPart true)
  String.ofList (Text.joinWith [';'] parts)

/-- The attributes of a `meta` tag with the encoding of written markup. Only a tag
    without an attribute for it names the encoding in a content type. -/
def encodedAttrs (tag : Dom.Tag) : List (String × Dom.AttrValue) :=
  let isTyped := (tag.text? "http-equiv").any fun kind => Text.foldName kind == "content-type"
  if tag.hasAttr "charset" then Entries.put tag.attrs "charset" (.text writtenEncoding)
  else
    match if isTyped then tag.text? "content" else none with
    | some content => Entries.put tag.attrs "content" (.text (encodedType content))
    | none => tag.attrs

/-- A tag with the encoding of written markup. -/
def withEncoding (tag : Dom.Tag) : Dom.Tag :=
  if tag.name = "meta" then { tag with attrs := encodedAttrs tag } else tag

mutual

/-- A node with the encoding of written markup in all tags. -/
def encodeNode : Dom.Node → Dom.Node
  | .element tag children => .element (withEncoding tag) (encodeNodes children)
  | node => node

/-- Nodes with the encoding of written markup in all tags. -/
def encodeNodes : List Dom.Node → List Dom.Node
  | [] => []
  | node :: nodes => encodeNode node :: encodeNodes nodes

end

/-- An element with the encoding of written markup in its tag and all below it. -/
def encodeElement (e : Dom.Element) : Dom.Element :=
  { e with tag := withEncoding e.tag, nodes := encodeNodes e.nodes }

end Markup

end PageDistill
