import PageDistill.Dom.Element

/-!
# Going Down a Page

Children, descendants, and what a step down to a child does.

The descendants of an element are listed by a recursion over the nodes of the page, which
knows elements only with the nodes below them. To prove something of all descendants it is
enough to know it of the children and to carry it down one step (`descendants_induction`).
The other lemmas are about that one step: what a child has below it, its parent has too,
and the nesting gets less deep.

## Theorems

* `Element.mem_children_iff`: The children, by the nodes of the element.
* `Element.descendants_eq_flatMap`: The descendants are the children, each with its own.
* `Element.descendants_induction`: A statement about descendants, one step at a time.
* `Element.heightOf_lt_of_mem_children`: A child is nested less deep.
* `Element.mem_descendants_of_mem_children`, `Element.descendants_subset_of_mem_children`:
  Children and what is below them are below the element.
* `Element.stringsOf_subset_of_mem_children`: So are their strings.
-/

namespace PageDistill

namespace Dom

mutual

/-- What holds of an element, and goes over from elements to their children, holds of all the
    elements that start at a node. -/
theorem Node.elements_induction {motive : Element → Prop} (parent : String) (role : TextRole)
    (node : Node) (step : ∀ d c : Element, motive d → c ∈ d.children → motive c)
    (h : ∀ tag children, node = .element tag children → motive ⟨parent, role, tag, children⟩)
    (d : Element) (hd : d ∈ node.elements parent role) : motive d := by
  cases node with
  | text content => exact absurd hd List.not_mem_nil
  | special kind content => exact absurd hd List.not_mem_nil
  | element tag children =>
      have hself := h tag children rfl
      rw [Node.elements, List.mem_cons] at hd
      rcases hd with rfl | hbelow
      · exact hself
      · -- The nodes below are the children of this element, which has the property already.
        refine elementsOf_induction tag.name (role.within tag.name) children step ?_ d hbelow
        intro inner nodes hinner
        refine step _ _ hself ?_
        exact List.mem_filterMap.mpr ⟨_, hinner, rfl⟩

theorem elementsOf_induction {motive : Element → Prop} (parent : String) (role : TextRole)
    (nodes : List Node) (step : ∀ d c : Element, motive d → c ∈ d.children → motive c)
    (h : ∀ tag children, .element tag children ∈ nodes → motive ⟨parent, role, tag, children⟩)
    (d : Element) (hd : d ∈ elementsOf parent role nodes) : motive d := by
  cases nodes with
  | nil => exact absurd hd List.not_mem_nil
  | cons node nodes =>
      rw [elementsOf, List.mem_append] at hd
      rcases hd with hnode | hrest
      · refine Node.elements_induction parent role node step ?_ d hnode
        intro tag children heq
        exact h tag children (by rw [heq]; exact List.mem_cons_self)
      · refine elementsOf_induction parent role nodes step ?_ d hrest
        intro tag children hmem
        exact h tag children (List.mem_cons_of_mem node hmem)

end

/-- The elements of nodes are those of each, in a row. -/
theorem elementsOf_eq_flatMap (parent : String) (role : TextRole) (nodes : List Node) :
    elementsOf parent role nodes = nodes.flatMap (Node.elements parent role) := by
  induction nodes with
  | nil => rfl
  | cons node rest ih => rw [elementsOf, ih, List.flatMap_cons]

/-- The strings of nodes are those of each, in a row. -/
theorem stringsOf_eq_flatMap (role : TextRole) (nodes : List Node) :
    stringsOf role nodes = nodes.flatMap (Node.strings role) := by
  induction nodes with
  | nil => rfl
  | cons node rest ih => rw [stringsOf, ih, List.flatMap_cons]

mutual

/-- The tags below a node do not depend on what is around it. -/
theorem Node.map_tag_elements (parent parent' : String) (role role' : TextRole) (node : Node) :
    (node.elements parent role).map Element.tag =
      (node.elements parent' role').map Element.tag := by
  cases node with
  | text content => rfl
  | special kind content => rfl
  | element tag children =>
      rw [Node.elements, Node.elements, List.map_cons, List.map_cons,
        map_tag_elementsOf tag.name tag.name _ _ children]

/-- The tags of the elements among nodes do not depend on where the nodes stand. -/
theorem map_tag_elementsOf (parent parent' : String) (role role' : TextRole) (nodes : List Node) :
    (elementsOf parent role nodes).map Element.tag =
      (elementsOf parent' role' nodes).map Element.tag := by
  cases nodes with
  | nil => rfl
  | cons node nodes =>
      rw [elementsOf, elementsOf, List.map_append, List.map_append,
        Node.map_tag_elements parent parent' role role' node,
        map_tag_elementsOf parent parent' role role' nodes]

end

theorem height_le_heightOf (nodes : List Node) (node : Node) (h : node ∈ nodes) :
    node.height ≤ heightOf nodes := by
  induction nodes with
  | nil => exact absurd h List.not_mem_nil
  | cons first rest ih =>
      rw [heightOf]
      rcases List.mem_cons.mp h with rfl | hrest
      · exact Nat.le_max_left _ _
      · exact Nat.le_trans (ih hrest) (Nat.le_max_right _ _)

namespace Element

theorem name_mk (parent : String) (role : TextRole) (tag : Tag) (nodes : List Node) :
    (Element.mk parent role tag nodes).name = tag.name := rfl

/-- The children are the element nodes of the element, in its place. -/
theorem mem_children_iff (e c : Element) :
    c ∈ e.children ↔
      .element c.tag c.nodes ∈ e.nodes ∧ c.parent = e.name ∧ c.outerRole = e.innerRole := by
  rw [children, List.mem_filterMap]
  constructor
  · rintro ⟨node, hnode, hc⟩
    cases node with
    | text content => exact absurd hc (by simp)
    | special kind content => exact absurd hc (by simp)
    | element tag nodes =>
        rw [← Option.some.inj hc]
        exact ⟨hnode, rfl, rfl⟩
  · rintro ⟨hnode, hparent, hrole⟩
    refine ⟨_, hnode, ?_⟩
    simp only
    rw [← hparent, ← hrole]

/-- The descendants are the children, each with its own descendants after it. -/
theorem descendants_eq_flatMap (e : Element) :
    e.descendants = e.children.flatMap fun c => c :: c.descendants := by
  unfold descendants children
  induction e.nodes with
  | nil => rfl
  | cons node rest ih =>
      rw [elementsOf, ih]
      cases node with
      | text content => rfl
      | special kind content => rfl
      | element tag nodes => rfl

/-- What holds of the children, and goes over from elements to their children, holds of all
    descendants. -/
theorem descendants_induction {motive : Element → Prop} (e : Element)
    (base : ∀ c ∈ e.children, motive c)
    (step : ∀ d c : Element, motive d → c ∈ d.children → motive c) (d : Element)
    (hd : d ∈ e.descendants) : motive d := by
  refine elementsOf_induction e.name e.innerRole e.nodes step ?_ d hd
  intro tag children hmem
  exact base _ ((mem_children_iff e _).mpr ⟨hmem, rfl, rfl⟩)

/-- The elements of a node of an element are below the element. -/
theorem elements_subset_of_mem_nodes {e : Element} {node : Node} (h : node ∈ e.nodes) :
    node.elements e.name e.innerRole ⊆ e.descendants := by
  intro d hd
  rw [descendants, elementsOf_eq_flatMap]
  exact List.mem_flatMap.mpr ⟨node, h, hd⟩

variable {e c : Element} (h : c ∈ e.children)

include h

/-- A child is nested less deep. -/
theorem heightOf_lt_of_mem_children : heightOf c.nodes < heightOf e.nodes := by
  rcases (mem_children_iff e c).mp h with ⟨hnode, _, _⟩
  have hle := height_le_heightOf e.nodes _ hnode
  rw [Node.height] at hle
  omega

/-- A child is a descendant. -/
theorem mem_descendants_of_mem_children : c ∈ e.descendants := by
  rcases (mem_children_iff e c).mp h with ⟨hnode, hparent, hrole⟩
  rw [descendants, elementsOf_eq_flatMap]
  refine List.mem_flatMap.mpr ⟨_, hnode, ?_⟩
  rw [Node.elements, ← hparent, ← hrole]
  exact List.mem_cons_self

/-- What is below a child is below the element. -/
theorem descendants_subset_of_mem_children : c.descendants ⊆ e.descendants := by
  intro d hd
  rcases (mem_children_iff e c).mp h with ⟨hnode, _, hrole⟩
  rw [descendants, elementsOf_eq_flatMap]
  refine List.mem_flatMap.mpr ⟨_, hnode, ?_⟩
  rw [Node.elements, ← hrole]
  exact List.mem_cons_of_mem _ hd

/-- The strings of a child are strings of the element. -/
theorem stringsOf_subset_of_mem_children :
    stringsOf c.innerRole c.nodes ⊆ stringsOf e.innerRole e.nodes := by
  intro s hs
  rcases (mem_children_iff e c).mp h with ⟨hnode, _, hrole⟩
  rw [stringsOf_eq_flatMap]
  refine List.mem_flatMap.mpr ⟨_, hnode, ?_⟩
  rw [Node.strings, ← hrole]
  exact hs

omit h

/-- Descendants of descendants are descendants. -/
theorem descendants_subset (e d : Element) (hd : d ∈ e.descendants) :
    d.descendants ⊆ e.descendants := by
  refine descendants_induction e
    (fun c hc => descendants_subset_of_mem_children hc) (fun d c hsub hc => ?_) d hd
  exact List.Subset.trans (descendants_subset_of_mem_children hc) hsub

/-- An element is less high than those it stands in. -/
theorem heightOf_lt (e d : Element) (hd : d ∈ e.descendants) :
    heightOf d.nodes < heightOf e.nodes := by
  refine descendants_induction e (fun c hc => heightOf_lt_of_mem_children hc)
    (fun d c hlt hc => ?_) d hd
  exact Nat.lt_trans (heightOf_lt_of_mem_children hc) hlt

end Element

end Dom

end PageDistill
