import PageDistill.Dom.Node

/-!
# Elements in Their Place

An element together with the two things that its place in a page says about it:
the name of its parent, and the role of the text around it. What an element says
depends on the second, and how code is laid out on the first, so whatever reads
an element takes it with its place.

A page is the root of its elements: it behaves as an element named `[document]`
without attributes. Children are numbered from zero, strings included, and a
path is the list of numbers that lead from a page to a node.

## Main definitions

* `Element`: An element in its place.
* `Element.text`, `Element.spacedText`: What an element says.
* `Element.children`, `Element.descendants`: The elements below.
* `heightOf`: How deep the elements of nodes are nested.
* `placedOf`, `Element.placed`: The same elements with their paths.
* `Document`: A page.
* `Document.element?`, `Document.modifyAt`: What stands at a path.

## Theorems

* `placedOf_map_snd`: The elements of a list of nodes with paths are its
  elements.
-/

namespace PageDistill

namespace Dom

/-- An element with the name of its parent and the role of the text around
    it. -/
structure Element where
  parent : String
  outerRole : TextRole
  tag : Tag
  nodes : List Node
  deriving Repr

/-- A path from a page to a node: the numbers of the children on the way. -/
abbrev Path := List Nat

mutual

/-- The element that a node is, if it is one, and all elements below it. -/
def Node.elements (parent : String) (role : TextRole) : Node → List Element
  | .element tag children =>
    ⟨parent, role, tag, children⟩ :: elementsOf tag.name (role.within tag.name) children
  | _ => []

/-- The elements among nodes and below them, in document order. -/
def elementsOf (parent : String) (role : TextRole) : List Node → List Element
  | [] => []
  | node :: nodes => node.elements parent role ++ elementsOf parent role nodes

end

mutual

/-- The number of elements on the longest way down to a node, the node
    included. -/
def Node.height : Node → Nat
  | .element _ children => heightOf children + 1
  | _ => 0

/-- The greatest height of some nodes. -/
def heightOf : List Node → Nat
  | [] => 0
  | node :: nodes => max node.height (heightOf nodes)

end

mutual

/-- The elements of a node that stands at a path, with their paths. -/
def Node.placed (parent : String) (role : TextRole) (path : Path) : Node → List (Path × Element)
  | .element tag children =>
    (path, ⟨parent, role, tag, children⟩) ::
      placedOf tag.name (role.within tag.name) path 0 children
  | _ => []

/-- The elements among the children of a path, from the child of a number on,
    and below them, in document order with their paths. -/
def placedOf (parent : String) (role : TextRole) (path : Path) (index : Nat) :
    List Node → List (Path × Element)
  | [] => []
  | node :: nodes =>
    node.placed parent role (path ++ [index]) ++ placedOf parent role path (index + 1) nodes

end

namespace Element

/-- The name of an element as it was written. -/
def name (e : Element) : String := e.tag.name

/-- The role of the text directly in an element. -/
def innerRole (e : Element) : TextRole := e.outerRole.within e.name

/-- A node as an element in its place. A string has nothing below it; it counts
    as an empty element, and its missing name is shown as `None`. -/
def ofNode (parent : String) (role : TextRole) : Node → Element
  | .element tag children => ⟨parent, role, tag, children⟩
  | _ => ⟨parent, role, ⟨"None", []⟩, []⟩

/-- The elements among the children, in order. -/
def children (e : Element) : List Element :=
  e.nodes.filterMap fun node =>
    match node with
    | .element tag nodes => some ⟨e.name, e.innerRole, tag, nodes⟩
    | _ => none

/-- The elements below an element, in document order. -/
def descendants (e : Element) : List Element := elementsOf e.name e.innerRole e.nodes

/-- The elements below an element that stands at a path, with their paths. -/
def placed (path : Path) (e : Element) : List (Path × Element) :=
  placedOf e.name e.innerRole path 0 e.nodes

/-- The descendants of exactly the given name. -/
def named (e : Element) (name : String) : List Element :=
  e.descendants.filter fun d => d.name == name

/-- The first descendant of exactly the given name. -/
def first? (e : Element) (name : String) : Option Element :=
  e.descendants.find? fun d => d.name == name

/-- The strings that an element says. An element whose text has a role of its
    own says the text of that role; any other element says ordinary text and
    character data. -/
def holds (e : Element) (kind : StringClass) : Bool :=
  match TextRole.ofName? e.name with
  | some role => kind == .text role
  | none => kind == .text .ordinary || kind == .special .cdata

/-- The strings that an element says, in document order. -/
def strings (e : Element) : List (List Char) :=
  ((stringsOf e.innerRole e.nodes).filter fun s => e.holds s.kind).map fun s => s.content.toList

/-- What an element says, as one text. -/
def text (e : Element) : List Char := e.strings.flatten

/-- What an element says with every string trimmed, and one space between those
    that are not blank. -/
def spacedText (e : Element) : List Char :=
  Text.joinWith [' '] ((e.strings.map Text.trim).filter fun s => !s.isEmpty)

/-- Whether all children are text. An element without children is among these. -/
def holdsOnlyText (e : Element) : Bool := e.nodes.all Node.isText

end Element

/-- A page: the nodes at its top. -/
structure Document where
  nodes : List Node
  deriving Repr

/-- Follows a path down from an element. A step into a string, or past the last
    child, leads nowhere. -/
def Element.follow? (e : Element) : Path → Option Element
  | [] => some e
  | index :: path =>
    match e.nodes[index]? with
    | some node => (ofNode e.name e.innerRole node).follow? path
    | none => none

/-- Changes the node at the end of a path that leads down from the given nodes;
    a path that leads nowhere changes nothing. -/
def modifyAt (f : Node → Node) : Path → List Node → List Node
  | [], nodes => nodes
  | [index], nodes => nodes.modify index f
  | index :: path, nodes =>
    nodes.modify index fun node =>
      match node with
      | .element tag children => .element tag (modifyAt f path children)
      | other => other

namespace Document

/-- The name that a page has as the root of its elements. -/
def rootName : String := "[document]"

/-- A page as the root of its elements. -/
def root (d : Document) : Element := ⟨"", .ordinary, ⟨rootName, []⟩, d.nodes⟩

/-- The node at a path as an element in its place; the empty path is the
    page. -/
def element? (d : Document) (path : Path) : Option Element := d.root.follow? path

/-- Changes the node at a path. -/
def modifyAt (d : Document) (path : Path) (f : Node → Node) : Document :=
  ⟨Dom.modifyAt f path d.nodes⟩

end Document

mutual

theorem Node.placed_map_snd (parent : String) (role : TextRole) (path : Path) (node : Node) :
    (node.placed parent role path).map Prod.snd = node.elements parent role := by
  cases node with
  | text content => rfl
  | special kind content => rfl
  | element tag children =>
      rw [Node.placed, Node.elements, List.map_cons, placedOf_map_snd]

/-- The elements of a list of nodes with paths are its elements. -/
theorem placedOf_map_snd (parent : String) (role : TextRole) (path : Path) (index : Nat)
    (nodes : List Node) :
    (placedOf parent role path index nodes).map Prod.snd = elementsOf parent role nodes := by
  cases nodes with
  | nil => rfl
  | cons node nodes =>
      rw [placedOf, elementsOf, List.map_append, Node.placed_map_snd, placedOf_map_snd]

end

end Dom

end PageDistill
