import PageDistill.Dom.Element
import PageDistill.Markup.Dialect
import PageDistill.Markup.Escaping

/-!
# Writing Markup

Nodes of a page as HTML.

Scripts and style sheets hold their text as it is; everywhere else the
characters of markup are replaced by references. An attribute value stands
between double quotation marks, or between single ones if it holds a double one;
one that holds both has its double ones replaced. A list of words is written with
spaces between them. An element that can have no contents is written without an
end tag. Attributes are written in the order of their names.

## Main definitions

* `rawElements`: The elements whose text is written as it is.
* `writeAttr`, `writeNodes`, `writeElement`: The markup.
-/

namespace PageDistill

namespace Markup

/-- The elements whose text is markup of no kind. -/
def rawElements : List String := ["script", "style"]

/-- An attribute value between quotation marks. -/
def quotedAttr (value : List Char) : List Char :=
  if value.contains '"' then
    if value.contains '\'' then
      '"' :: ((value.flatMap fun c => if c = '"' then "&quot;".toList else [c]) ++ ['"'])
    else '\'' :: (value ++ ['\''])
  else '"' :: (value ++ ['"'])

/-- The text of an attribute value. -/
def attrText : Dom.AttrValue → List Char
  | .text s => s.toList
  | .list words => Text.joinWith [' '] (words.map String.toList)

/-- An attribute, with the space before it. -/
def writeAttr (name : String) (value : Dom.AttrValue) : List Char :=
  ' ' :: (name.toList ++ '=' :: quotedAttr (writeText (attrText value)))

/-- The attributes of a tag, in the order of their names. -/
def writeAttrs (attrs : List (String × Dom.AttrValue)) : List Char :=
  (attrs.mergeSort fun a b => a.1 ≤ b.1).flatMap fun (name, value) => writeAttr name value

/-- A string that is not text. -/
def writeSpecial (kind : Dom.Special) (content : List Char) : List Char :=
  match kind with
  | .comment => "<!--".toList ++ content ++ "-->".toList
  | .cdata => "<![CDATA[".toList ++ content ++ "]]>".toList
  | .instruction => "<?".toList ++ content ++ ">".toList
  | .doctype => "<!DOCTYPE ".toList ++ content ++ ">\n".toList
  | .declaration => "<?".toList ++ content ++ "?>".toList

/-- An element around its written contents. -/
def writeTag (tag : Dom.Tag) (isEmpty : Bool) (inner : List Char) : List Char :=
  let start := '<' :: (tag.name.toList ++ writeAttrs tag.attrs)
  if emptyElements.contains tag.name ∧ isEmpty then start ++ ['/', '>']
  else start ++ '>' :: (inner ++ '<' :: '/' :: (tag.name.toList ++ ['>']))

mutual

/-- A node inside an element whose text is raw or not. -/
def writeNode (raw : Bool) : Dom.Node → List Char
  | .text content => if raw then content.toList else writeText content.toList
  | .special kind content => writeSpecial kind content.toList
  | .element tag children =>
    writeTag tag children.isEmpty (writeNodes (rawElements.contains tag.name) children)

/-- Nodes inside an element whose text is raw or not. -/
def writeNodes (raw : Bool) : List Dom.Node → List Char
  | [] => []
  | node :: nodes => writeNode raw node ++ writeNodes raw nodes

end

/-- An element of a page; the page itself is written as its nodes. -/
def writeElement (e : Dom.Element) : List Char :=
  if e.name = Dom.Document.rootName then writeNodes false e.nodes
  else writeNode false (.element e.tag e.nodes)

end Markup

end PageDistill
