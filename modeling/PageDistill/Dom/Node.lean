import PageDistill.Dom.AttrValue
import PageDistill.Entries

/-!
# Nodes of a Page

The document tree that a page is read into, and what can be asked of a node by
itself.

A node is text, a string of some other kind (a comment, a doctype and so on), or
an element with a tag and children. Names are kept as they were written.

Text below a script, a style sheet, a template or a ruby annotation has a role
of its own: it is part of the page's source, but not of what the page says. The
role of a text is that of the nearest such element around it, so it depends on
where the text stands. `stringsOf` gives all strings below a place with their
roles, in document order.

## Main definitions

* `Tag`, `Node`: The tree.
* `Tag.attr?`, `Tag.text?`, `Tag.filled?`, `Tag.hasText`, `Tag.classes`, `Tag.hasClass`: The
  attributes of a tag.
* `TextRole`: The roles of text.
* `stringsOf`: The strings of a list of nodes with their roles.
-/

namespace PageDistill

namespace Dom

/-- The name of an element and its attributes in the order of the source. -/
structure Tag where
  name : String
  attrs : List (String × AttrValue)
  deriving DecidableEq, Repr

namespace Tag

/-- The value of an attribute. -/
def attr? (t : Tag) (name : String) : Option AttrValue := Entries.lookup? t.attrs name

/-- The value of an attribute that holds a text. -/
def text? (t : Tag) (name : String) : Option String :=
  match t.attr? name with
  | some (.text s) => some s
  | _ => none

/-- Whether an attribute has a text among its values: the text itself, or one of
    a list. A list also has the text that its items make with spaces between
    them. -/
def hasText (t : Tag) (name text : String) : Bool :=
  match t.attr? name with
  | some (.text s) => s == text
  | some (.list items) => items.contains text || " ".intercalate items == text
  | none => false

/-- Whether the tag has an attribute, whatever its value. -/
def hasAttr (t : Tag) (name : String) : Bool := (t.attr? name).isSome

/-- The value of an attribute, if it is there and not empty. -/
def filled? (t : Tag) (name : String) : Option AttrValue :=
  (t.attr? name).bind fun value => if value.isEmpty then none else some value

/-- The value of an attribute inside a message, empty when it is missing. -/
def shown (t : Tag) (name : String) : String :=
  match t.filled? name with
  | some value => value.display
  | none => ""

/-- The class names of the tag, as they are gone through. A text in their place is
    gone through character by character. -/
def classes (t : Tag) : List String :=
  match t.attr? "class" with
  | some (.list names) => names
  | some (.text s) => s.toList.map String.singleton
  | none => []

/-- Whether the tag has a class name. A text in the place of the names has whatever
    occurs in it. -/
def hasClass (t : Tag) (name : String) : Bool :=
  match t.attr? "class" with
  | some (.list names) => names.contains name
  | some (.text s) => Text.occursIn name.toList s.toList
  | none => false

end Tag

/-- Strings of a page that are not text. -/
inductive Special where
  | comment
  | cdata
  | instruction
  | doctype
  | declaration
  deriving DecidableEq, Repr

/-- A node of a page. -/
inductive Node where
  | text (content : String)
  | special (kind : Special) (content : String)
  | element (tag : Tag) (children : List Node)
  deriving Repr

instance : Inhabited Node := ⟨.text ""⟩

/-- The role of a text: ordinary text, or the contents of one of the elements
    that do not hold ordinary text. -/
inductive TextRole where
  | ordinary
  | script
  | style
  | template
  | rubyText
  | rubyParenthesis
  deriving DecidableEq, Repr

namespace TextRole

/-- The role that an element of the name gives to the text in it, if it gives
    one. -/
def ofName? (name : String) : Option TextRole :=
  if name = "script" then some .script
  else if name = "style" then some .style
  else if name = "template" then some .template
  else if name = "rt" then some .rubyText
  else if name = "rp" then some .rubyParenthesis
  else none

/-- The role of the text in an element, from its name and the role of the text
    around it. -/
def within (outer : TextRole) (name : String) : TextRole := (ofName? name).getD outer

end TextRole

/-- The class of a string: text of some role, or a string that is not text. -/
inductive StringClass where
  | text (role : TextRole)
  | special (kind : Special)
  deriving DecidableEq, Repr

/-- A string of a page with its class. -/
structure ClassedString where
  kind : StringClass
  content : String
  deriving DecidableEq, Repr

mutual

/-- The strings of a node that stands among text of a role. -/
def Node.strings (role : TextRole) : Node → List ClassedString
  | .text content => [⟨.text role, content⟩]
  | .special kind content => [⟨.special kind, content⟩]
  | .element tag children => stringsOf (role.within tag.name) children

/-- The strings of nodes that stand among text of a role, in document order. -/
def stringsOf (role : TextRole) : List Node → List ClassedString
  | [] => []
  | node :: nodes => node.strings role ++ stringsOf role nodes

end

namespace Node

/-- Whether a node is text; the other strings of a page are not. -/
def isText : Node → Bool
  | .text _ => true
  | _ => false

/-- The content of a string of any kind. -/
def string? : Node → Option String
  | .text content => some content
  | .special _ content => some content
  | .element .. => none

end Node

/-- The codes of the kinds of nodes, with their names. A declaration that is no
    doctype has none. -/
inductive NodeKind where
  | element
  | text
  | cdataSection
  | processingInstruction
  | comment
  | document
  | documentType
  deriving DecidableEq, Repr

namespace NodeKind

/-- The code of a kind in the numbering of the DOM standard. -/
def code : NodeKind → Nat
  | .element => 1
  | .text => 3
  | .cdataSection => 4
  | .processingInstruction => 7
  | .comment => 8
  | .document => 9
  | .documentType => 10

/-- The name of a kind in the DOM standard. -/
def name : NodeKind → String
  | .element => "ELEMENT"
  | .text => "TEXT"
  | .cdataSection => "CDATA_SECTION"
  | .processingInstruction => "PROCESSING_INSTRUCTION"
  | .comment => "COMMENT"
  | .document => "DOCUMENT"
  | .documentType => "DOCUMENT_TYPE"

end NodeKind

/-- The kind of a node. -/
def Node.kind? : Node → Option NodeKind
  | .text _ => some .text
  | .special .comment _ => some .comment
  | .special .cdata _ => some .cdataSection
  | .special .instruction _ => some .processingInstruction
  | .special .doctype _ => some .documentType
  | .special .declaration _ => none
  | .element .. => some .element

end Dom

end PageDistill
