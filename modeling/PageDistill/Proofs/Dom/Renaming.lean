import PageDistill.Proofs.Dom.Descendants

/-!
# Pages with Other Names

A page with every element called something else, and all else as it is.

Most of what is asked of a page has nothing to do with names: how deep it is nested, which
children an element has, what stands in its attributes. Two things do. The role of a text comes
from the names around it, so the strings are the same as long as no name gains or loses a role
(`KeepsRoles`), and then the elements below the renamed page are the renamed elements below the
page (`descendants_rename`). And elements are looked for by name. A search finds the renamed
elements if its test does not tell the two names of an element apart, which is all that a change of
letter case has to be checked for (`filter_descendants_rename`).

## Main definitions

* `Node.rename`, `renameAll`, `Element.rename`: A node, nodes and an element with other names.
* `Element.KeepsRoles`: Other names that leave the role of every text as it is.

## Theorems

* `stringsOf_renameAll`, `elementsOf_renameAll`, `heightOf_renameAll`: What is below renamed nodes.
* `Element.text_rename`, `Element.spacedText_rename`: What an element says.
* `Element.descendants_rename`, `Element.filter_descendants_rename`: The elements below it.
-/

namespace PageDistill

namespace Dom

/-- The tag under another name. -/
def Tag.rename (f : String → String) (tag : Tag) : Tag := { tag with name := f tag.name }

mutual

/-- A node with all the elements in it renamed. -/
def Node.rename (f : String → String) : Node → Node
  | .element tag children => .element (tag.rename f) (renameAll f children)
  | node => node

/-- Nodes with all the elements in them renamed. -/
def renameAll (f : String → String) : List Node → List Node
  | [] => []
  | node :: nodes => node.rename f :: renameAll f nodes

end

/-- An element with its parent and all elements in it renamed. -/
def Element.rename (f : String → String) (e : Element) : Element :=
  ⟨f e.parent, e.outerRole, e.tag.rename f, renameAll f e.nodes⟩

/-- A name has the role of the name that it replaces. -/
def SameRole (f : String → String) (name : String) : Prop :=
  TextRole.ofName? (f name) = TextRole.ofName? name

section

variable (f : String → String)

theorem renameAll_eq_map (nodes : List Node) : renameAll f nodes = nodes.map (Node.rename f) := by
  induction nodes with
  | nil => rfl
  | cons node rest ih => rw [renameAll, ih, List.map_cons]

theorem isText_rename (node : Node) : (node.rename f).isText = node.isText := by
  cases node <;> rfl

theorem within_rename {name : String} (h : SameRole f name) (role : TextRole) :
    role.within (f name) = role.within name := congrArg (Option.getD · role) h

mutual

/-- A page is as high under other names. -/
theorem Node.height_rename (node : Node) : (node.rename f).height = node.height := by
  cases node with
  | text content => rfl
  | special kind content => rfl
  | element tag children => rw [Node.rename, Node.height, Node.height, heightOf_renameAll children]

/-- Names do not count for the depth. -/
theorem heightOf_renameAll (nodes : List Node) : heightOf (renameAll f nodes) = heightOf nodes := by
  cases nodes with
  | nil => rfl
  | cons node nodes =>
      rw [renameAll, heightOf, heightOf, Node.height_rename node, heightOf_renameAll nodes]

end

mutual

/-- It has the same strings if no name changes the role of the text in it. -/
theorem Node.strings_rename (parent : String) (role : TextRole) (node : Node)
    (h : ∀ d ∈ node.elements parent role, SameRole f d.name) :
    (node.rename f).strings role = node.strings role := by
  cases node with
  | text content => rfl
  | special kind content => rfl
  | element tag children =>
      rw [Node.elements, List.forall_mem_cons, Element.name_mk] at h
      rw [Node.rename, Node.strings, Node.strings]
      change stringsOf (role.within (f tag.name)) _ = _
      rw [within_rename f h.1, stringsOf_renameAll tag.name _ children h.2]

/-- The strings are the same, with the same roles. -/
theorem stringsOf_renameAll (parent : String) (role : TextRole) (nodes : List Node)
    (h : ∀ d ∈ elementsOf parent role nodes, SameRole f d.name) :
    stringsOf role (renameAll f nodes) = stringsOf role nodes := by
  cases nodes with
  | nil => rfl
  | cons node nodes =>
      rw [elementsOf, List.forall_mem_append] at h
      rw [renameAll, stringsOf, stringsOf, Node.strings_rename parent role node h.1,
        stringsOf_renameAll parent role nodes h.2]

end

mutual

/-- Its elements are renamed one by one. -/
theorem Node.elements_rename (parent : String) (role : TextRole) (node : Node)
    (h : ∀ d ∈ node.elements parent role, SameRole f d.name) :
    (node.rename f).elements (f parent) role =
      (node.elements parent role).map (Element.rename f) := by
  cases node with
  | text content => rfl
  | special kind content => rfl
  | element tag children =>
      rw [Node.elements, List.forall_mem_cons, Element.name_mk] at h
      rw [Node.rename, Node.elements, Node.elements, List.map_cons]
      change _ :: elementsOf (f tag.name) (role.within (f tag.name)) _ = _
      rw [within_rename f h.1, elementsOf_renameAll tag.name _ children h.2]
      rfl

/-- The elements below renamed nodes are the elements below the nodes, renamed. -/
theorem elementsOf_renameAll (parent : String) (role : TextRole) (nodes : List Node)
    (h : ∀ d ∈ elementsOf parent role nodes, SameRole f d.name) :
    elementsOf (f parent) role (renameAll f nodes) =
      (elementsOf parent role nodes).map (Element.rename f) := by
  cases nodes with
  | nil => rfl
  | cons node nodes =>
      rw [elementsOf, List.forall_mem_append] at h
      rw [renameAll, elementsOf, elementsOf, List.map_append,
        Node.elements_rename parent role node h.1, elementsOf_renameAll parent role nodes h.2]

end

end

namespace Element

/-- Names that leave the role of every text in an element as it is. -/
def KeepsRoles (f : String → String) (e : Element) : Prop :=
  SameRole f e.name ∧ ∀ d ∈ e.descendants, SameRole f d.name

variable {f : String → String} {e : Element}

theorem name_rename : (e.rename f).name = f e.name := rfl

theorem holdsOnlyText_rename : (e.rename f).holdsOnlyText = e.holdsOnlyText := by
  change (renameAll f e.nodes).all Node.isText = e.nodes.all Node.isText
  rw [renameAll_eq_map, List.all_map]
  exact congrArg (List.all e.nodes) (funext fun node => isText_rename f node)

section

variable (h : e.KeepsRoles f)

include h

theorem innerRole_rename : (e.rename f).innerRole = e.innerRole := within_rename f h.1 e.outerRole

theorem strings_rename : (e.rename f).strings = e.strings := by
  have hholds : (e.rename f).holds = e.holds := by
    funext kind
    unfold holds
    rw [name_rename, show TextRole.ofName? (f e.name) = TextRole.ofName? e.name from h.1]
  unfold strings
  rw [hholds, innerRole_rename h]
  change ((stringsOf e.innerRole (renameAll f e.nodes)).filter _).map _ = _
  rw [stringsOf_renameAll f e.name e.innerRole e.nodes h.2]

/-- What an element says does not depend on names that have no role. -/
theorem text_rename : (e.rename f).text = e.text := by rw [text, text, strings_rename h]

theorem spacedText_rename : (e.rename f).spacedText = e.spacedText := by
  rw [spacedText, spacedText, strings_rename h]

/-- The elements below a renamed element are the elements below it, renamed. -/
theorem descendants_rename :
    (e.rename f).descendants = e.descendants.map (Element.rename f) := by
  unfold descendants
  rw [innerRole_rename h]
  exact elementsOf_renameAll f e.name e.innerRole e.nodes h.2

/-- A search that does not tell the two names of an element apart finds the same elements. -/
theorem filter_descendants_rename (wanted : String → Bool)
    (hwanted : ∀ d ∈ e.descendants, wanted (f d.name) = wanted d.name) :
    (e.rename f).descendants.filter (fun d => wanted d.name) =
      (e.descendants.filter fun d => wanted d.name).map (Element.rename f) := by
  rw [descendants_rename h, List.filter_map]
  exact congrArg (List.map _) (List.filter_congr hwanted)

/-- The children are renamed with their element. -/
theorem children_rename : (e.rename f).children = e.children.map (Element.rename f) := by
  unfold children
  rw [innerRole_rename h]
  change (renameAll f e.nodes).filterMap _ = _
  rw [renameAll_eq_map, List.filterMap_map, List.map_filterMap]
  refine congrArg (List.filterMap · e.nodes) (funext fun node => ?_)
  cases node <;> rfl

end

/-- Elements below keep their roles too. -/
theorem KeepsRoles.descendant (h : e.KeepsRoles f) {d : Element} (hd : d ∈ e.descendants) :
    d.KeepsRoles f :=
  ⟨h.2 d hd, fun x hx => h.2 x (descendants_subset e d hd hx)⟩

end Element

end Dom

end PageDistill
