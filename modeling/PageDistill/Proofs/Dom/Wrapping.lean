import Mathlib.Data.List.Forall2
import PageDistill.Proofs.Dom.Descendants
import PageDistill.Text.Fold

/-!
# Wrappers Around Runs of Nodes

Pages with `div` and `span` elements put around some of their nodes.

`WrappedOnce` says of two lists of nodes that the second is the first with one wrapper put around a
run of neighbours, among the nodes or among the children of an element anywhere below. `Wrapped` is
the same with any number of wrappers. It is the form to prove things in, since a part of a page
that holds no wrapper is related to itself by it, and a part that does need not be told apart.

A wrapper has no role for text and is none of the elements that anything is looked for by name, so
what one asks of a page from above does not see it: neither the strings nor the elements of other
names (`Wrapped.stringsOf_eq`, `Wrapped.filter_elementsOf`). It makes nothing shallower
(`Wrapped.heightOf_le`). It does change which nodes the children of an element are. Elements whose
children matter as such are closed to wrappers (`closedNames`), and between the children of these
there is none (`Wrapped.children`).

A run is not empty. A wrapper around nothing would be one more node, and then a node that stood
alone would not stand alone any more.

## Main definitions

* `wrapperNames`, `closedNames`: The names of wrappers, and of elements that are closed to them.
* `WrappedOnce`: Nodes with a wrapper put around a run of them.
* `Wrapped`, `WrappedElement`: Nodes, and elements, with wrappers put in at any number of places.

## Theorems

* `Wrapped.refl`, `WrappedOnce.wrapped`: No wrapper, and one.
* `Wrapped.heightOf_le`, `Wrapped.stringsOf_eq`: Depth and strings.
* `Wrapped.filter_elementsOf`, `WrappedElement.filter_descendants`: Elements of other names, in
  pairs.
* `Wrapped.all_isText_eq`, `WrappedElement.children`: What closed elements hold.
-/

namespace PageDistill

namespace Dom

/-- The names of the elements that serve as wrappers. -/
def wrapperNames : List String := ["div", "span"]

/-- The names, in lower case, of the elements that are closed to wrappers. -/
def closedNames : List String := ["a", "td", "th", "ul", "ol", "pre"]

/-- The second list of nodes is the first with a wrapper of the given tag put around a run of
    neighbours, somewhere in an element that is not closed. The first index is the name of the
    element that holds the nodes. -/
inductive WrappedOnce (tag : Tag) : String → List Node → List Node → Prop where
  | here {parent : String} (front run back : List Node) (hopen : Text.foldName parent ∉ closedNames)
      (hrun : run ≠ []) :
      WrappedOnce tag parent (front ++ run ++ back) (front ++ .element tag run :: back)
  | inside {parent : String} (front back : List Node) (inner : Tag) {children children' : List Node}
      (h : WrappedOnce tag inner.name children children') :
      WrappedOnce tag parent (front ++ .element inner children :: back)
        (front ++ .element inner children' :: back)

/-- The second list of nodes is the first with wrappers put in at any number of places. -/
inductive Wrapped : String → List Node → List Node → Prop where
  | nil (parent : String) : Wrapped parent [] []
  | text {parent : String} (content : String) {nodes nodes' : List Node}
      (hrest : Wrapped parent nodes nodes') :
      Wrapped parent (.text content :: nodes) (.text content :: nodes')
  | special {parent : String} (kind : Special) (content : String) {nodes nodes' : List Node}
      (hrest : Wrapped parent nodes nodes') :
      Wrapped parent (.special kind content :: nodes) (.special kind content :: nodes')
  | element {parent : String} (tag : Tag) {children children' nodes nodes' : List Node}
      (hbelow : Wrapped tag.name children children') (hrest : Wrapped parent nodes nodes') :
      Wrapped parent (.element tag children :: nodes) (.element tag children' :: nodes')
  | wrap {parent : String} (tag : Tag) {run run' nodes nodes' : List Node}
      (hname : tag.name ∈ wrapperNames) (hopen : Text.foldName parent ∉ closedNames)
      (hne : run ≠ []) (hrun : Wrapped tag.name run run') (hrest : Wrapped parent nodes nodes') :
      Wrapped parent (run ++ nodes) (.element tag run' :: nodes')

/-- Elements of one tag, of which the second has wrappers put in below it. -/
structure WrappedElement (e e' : Element) : Prop where
  tag : e'.tag = e.tag
  role : e'.outerRole = e.outerRole
  nodes : Wrapped e.name e.nodes e'.nodes

/-- Text keeps its role in a wrapper. -/
theorem within_of_wrapper {name : String} (h : name ∈ wrapperNames) (role : TextRole) :
    role.within name = role := by
  have hall : ∀ name ∈ wrapperNames, TextRole.ofName? name = none := by decide
  rw [TextRole.within, hall name h]
  rfl

mutual

theorem Wrapped.cons_refl (parent : String) (node : Node) {nodes nodes' : List Node}
    (hrest : Wrapped parent nodes nodes') : Wrapped parent (node :: nodes) (node :: nodes') := by
  cases node with
  | text content => exact .text content hrest
  | special kind content => exact .special kind content hrest
  | element tag children => exact .element tag (Wrapped.refl tag.name children) hrest

/-- Without a wrapper nothing changes. -/
theorem Wrapped.refl (parent : String) (nodes : List Node) : Wrapped parent nodes nodes := by
  cases nodes with
  | nil => exact .nil parent
  | cons node nodes => exact Wrapped.cons_refl parent node (Wrapped.refl parent nodes)

end

/-- Nodes that stand in front of both lists. -/
theorem Wrapped.append_left {parent : String} (front : List Node) {nodes nodes' : List Node}
    (h : Wrapped parent nodes nodes') : Wrapped parent (front ++ nodes) (front ++ nodes') := by
  induction front with
  | nil => exact h
  | cons node front ih => exact Wrapped.cons_refl parent node ih

/-- One wrapper is a number of wrappers. -/
theorem WrappedOnce.wrapped {tag : Tag} (hname : tag.name ∈ wrapperNames) {parent : String}
    {nodes nodes' : List Node} (h : WrappedOnce tag parent nodes nodes') :
    Wrapped parent nodes nodes' := by
  induction h with
  | here front run back hopen hrun =>
      rw [List.append_assoc]
      exact Wrapped.append_left front
        (.wrap tag hname hopen hrun (Wrapped.refl tag.name run) (Wrapped.refl _ back))
  | inside front back inner _ ih =>
      exact Wrapped.append_left front (.element inner ih (Wrapped.refl _ back))

theorem heightOf_append (nodes more : List Node) :
    heightOf (nodes ++ more) = max (heightOf nodes) (heightOf more) := by
  induction nodes with
  | nil => rw [List.nil_append, heightOf, Nat.zero_max]
  | cons node nodes ih => rw [List.cons_append, heightOf, heightOf, ih, Nat.max_assoc]

theorem elementsOf_append (parent : String) (role : TextRole) (nodes more : List Node) :
    elementsOf parent role (nodes ++ more) =
      elementsOf parent role nodes ++ elementsOf parent role more := by
  rw [elementsOf_eq_flatMap, elementsOf_eq_flatMap, elementsOf_eq_flatMap, List.flatMap_append]

theorem stringsOf_append (role : TextRole) (nodes more : List Node) :
    stringsOf role (nodes ++ more) = stringsOf role nodes ++ stringsOf role more := by
  rw [stringsOf_eq_flatMap, stringsOf_eq_flatMap, stringsOf_eq_flatMap, List.flatMap_append]

namespace Wrapped

variable {parent : String} {nodes nodes' : List Node} (h : Wrapped parent nodes nodes')

include h

/-- A wrapper holds something, so no list becomes empty or stops being so. -/
theorem nil_iff : nodes' = [] ↔ nodes = [] := by
  cases h with
  | nil => exact Iff.rfl
  | text | special | element => exact iff_of_false (List.cons_ne_nil _ _) (List.cons_ne_nil _ _)
  | wrap tag _ _ hne _ _ =>
      exact iff_of_false (List.cons_ne_nil _ _) (List.append_ne_nil_of_left_ne_nil hne _)

/-- Wrappers make nothing shallower. -/
theorem heightOf_le : heightOf nodes ≤ heightOf nodes' := by
  induction h with
  | nil => exact Nat.le_refl _
  | text content _ ih | special kind content _ ih =>
      rw [heightOf, heightOf]
      omega
  | element tag _ _ ihbelow ihrest =>
      rw [heightOf, heightOf, Node.height, Node.height]
      omega
  | wrap tag _ _ _ _ _ ihrun ihrest =>
      rw [heightOf_append, heightOf, Node.height]
      omega

/-- The strings are the same, with the same roles. -/
theorem stringsOf_eq (role : TextRole) : stringsOf role nodes' = stringsOf role nodes := by
  induction h generalizing role with
  | nil => rfl
  | text content _ ih | special kind content _ ih =>
      rw [stringsOf, stringsOf, ih]
  | element tag _ _ ihbelow ihrest =>
      rw [stringsOf, stringsOf, Node.strings, Node.strings, ihbelow, ihrest]
  | wrap tag hname _ _ _ _ ihrun ihrest =>
      rw [stringsOf_append, stringsOf, Node.strings, within_of_wrapper hname, ihrun, ihrest]

/-- Elements of names that are no wrappers come in pairs, in document order. -/
theorem filter_elementsOf (wanted : String → Bool)
    (hquiet : ∀ name ∈ wrapperNames, wanted name = false) (outer outer' : String)
    (role : TextRole) :
    List.Forall₂ WrappedElement ((elementsOf outer role nodes).filter fun d => wanted d.name)
      ((elementsOf outer' role nodes').filter fun d => wanted d.name) := by
  induction h generalizing outer outer' role with
  | nil => exact .nil
  | text content _ ih | special kind content _ ih => exact ih outer outer' role
  | element tag hbelow _ ihbelow ihrest =>
      have hinner := List.rel_append (ihbelow tag.name tag.name (role.within tag.name))
        (ihrest outer outer' role)
      rw [elementsOf, elementsOf, Node.elements, Node.elements, List.cons_append, List.cons_append,
        List.filter_cons, List.filter_cons, Element.name_mk, Element.name_mk, List.filter_append,
        List.filter_append]
      by_cases hwanted : wanted tag.name = true
      · rw [if_pos hwanted, if_pos hwanted]
        exact .cons ⟨rfl, rfl, hbelow⟩ hinner
      · rw [if_neg hwanted, if_neg hwanted]
        exact hinner
  | wrap tag hname _ _ _ _ ihrun ihrest =>
      -- The wrapper itself is not wanted, and what is in it stands in line with the rest.
      rw [elementsOf_append, elementsOf, Node.elements, List.cons_append, List.filter_cons,
        Element.name_mk, hquiet _ hname, if_neg Bool.false_ne_true, within_of_wrapper hname,
        List.filter_append, List.filter_append]
      exact List.rel_append (ihrun outer tag.name role) (ihrest outer outer' role)

variable (hclosed : Text.foldName parent ∈ closedNames)

include hclosed

/-- Whether all children of a closed element are text. -/
theorem all_isText_eq : nodes'.all Node.isText = nodes.all Node.isText := by
  induction h with
  | nil => rfl
  | text content _ ih | special kind content _ ih =>
      rw [List.all_cons, List.all_cons, ih hclosed]
  | element tag _ _ _ _ => rfl
  | wrap tag _ hopen _ _ _ _ _ => exact absurd hclosed hopen

end Wrapped

namespace WrappedElement

variable {e e' : Element} (h : WrappedElement e e')

include h

theorem name_eq : e'.name = e.name := congrArg Tag.name h.tag

theorem innerRole_eq : e'.innerRole = e.innerRole := by
  rw [Element.innerRole, Element.innerRole, h.role, h.name_eq]

/-- What an element says does not depend on wrappers. -/
theorem strings_eq : e'.strings = e.strings := by
  have hholds : e'.holds = e.holds := by
    funext kind
    rw [Element.holds, Element.holds, h.name_eq]
  rw [Element.strings, Element.strings, hholds, h.innerRole_eq, h.nodes.stringsOf_eq]

theorem text_eq : e'.text = e.text := by
  rw [Element.text, Element.text, h.strings_eq]

/-- The descendants of names that are no wrappers, in pairs. -/
theorem filter_descendants (wanted : String → Bool)
    (hquiet : ∀ name ∈ wrapperNames, wanted name = false) :
    List.Forall₂ WrappedElement (e.descendants.filter fun d => wanted d.name)
      (e'.descendants.filter fun d => wanted d.name) := by
  rw [Element.descendants, Element.descendants, h.innerRole_eq]
  exact h.nodes.filter_elementsOf wanted hquiet e.name e'.name e.innerRole

/-- The children of a closed element come in pairs. -/
theorem children (hclosed : Text.foldName e.name ∈ closedNames) :
    List.Forall₂ WrappedElement e.children e'.children := by
  have hnodes := h.nodes
  rw [Element.children, Element.children, h.name_eq, h.innerRole_eq]
  generalize e.nodes = nodes at hnodes
  generalize e'.nodes = nodes' at hnodes
  generalize hparent : e.name = parent at hnodes
  rw [hparent] at hclosed
  induction hnodes with
  | nil => exact .nil
  | text content _ ih | special kind content _ ih => exact ih hclosed hparent
  | element tag hbelow _ _ ih => exact .cons ⟨rfl, rfl, hbelow⟩ (ih hclosed hparent)
  | wrap tag _ hopen _ _ _ _ _ => exact absurd hclosed hopen

end WrappedElement

end Dom

end PageDistill
