import Mathlib.Data.List.Basic
import PageDistill.Proofs.Dom.Descendants

/-!
# Places in a Page

Where the elements of a page stand, and what it does to a page to put another node in the place of
one.

The listing of elements with their paths is a recursion over the nodes that counts children, while
following a path is a recursion over the path. Both are tied together at the elements themselves:
one that is listed with a path is what the path leads to (`exists_steps_of_mem_placedOf`).

`ReplacedAt` says of two lists of nodes that they are the same but for one place, and which node
stands there in each of them. It is built from the place upwards, so whatever can be said of the
two nodes is carried to the pages by an induction with two cases: the node is among the nodes of the
list, or among the children of one of them. In document order the change leaves three parts: what
is listed before the place are the same elements, some of them with other children now; then come
the two nodes; and all that is listed after them is untouched (`ReplacedAt.placedOf_split`).

## Main definitions

* `ReplacedAt`: Two lists of nodes that differ in one place.
* `Node.contents`, `unwrapAt`: The children of an element in its place.

## Theorems

* `exists_steps_of_mem_placedOf`: A listed path leads to its element.
* `placed_subset_of_mem_placedOf`: What is below a listed element is listed too.
* `Document.exists_replacedAt_of_mem_placed`: A listed element can be replaced.
* `ReplacedAt.modifyAt_eq`: Changing the node at the place gives the other list.
* `ReplacedAt.placedOf_split`: The listings of the two lists.
* `ReplacedAt.stringsOf_eq`: Nodes with the same strings in one place leave the strings alone.
* `ReplacedAt.unwrapAt_eq`: Unwrapping undoes a wrap.
-/

namespace PageDistill

namespace Dom

/-- What an element holds, and a string itself. -/
def Node.contents : Node → List Node
  | .element _ children => children
  | node => [node]

/-- Puts the contents of the node at a path in its place; a path that leads nowhere changes
    nothing. -/
def unwrapAt : Path → List Node → List Node
  | [], nodes => nodes
  | [index], nodes =>
    match nodes.drop index with
    | node :: back => nodes.take index ++ node.contents ++ back
    | [] => nodes
  | index :: path, nodes =>
    nodes.modify index fun node =>
      match node with
      | .element tag children => .element tag (unwrapAt path children)
      | other => other

/-- The page with the contents of the node at a path in its place. -/
def Document.unwrapAt (d : Document) (path : Path) : Document := ⟨Dom.unwrapAt path d.nodes⟩

/-- Two lists of nodes that are the same but for one place: at the path, the first has one node and
    the second the other. -/
inductive ReplacedAt (old new : Node) : Path → List Node → List Node → Prop
  | here (front back : List Node) :
      ReplacedAt old new [front.length] (front ++ old :: back) (front ++ new :: back)
  | inside (front back : List Node) (tag : Tag) {path : Path} {children children' : List Node}
      (h : ReplacedAt old new path children children') :
      ReplacedAt old new (front.length :: path) (front ++ .element tag children :: back)
        (front ++ .element tag children' :: back)

theorem placedOf_append (parent : String) (role : TextRole) (path : Path) (index : Nat)
    (front back : List Node) :
    placedOf parent role path index (front ++ back) =
      placedOf parent role path index front ++
        placedOf parent role path (index + front.length) back := by
  induction front generalizing index with
  | nil => rfl
  | cons node front ih =>
      rw [List.cons_append, placedOf, placedOf, ih, List.append_assoc, List.length_cons,
        show index + 1 + front.length = index + (front.length + 1) by omega]

mutual

theorem Node.exists_steps_of_mem_placed (parent : String) (role : TextRole) (path : Path)
    (node : Node) (p : Path × Element) (h : p ∈ node.placed parent role path) :
    ∃ steps, p.1 = path ++ steps ∧
      (Element.ofNode parent role node).follow? steps = some p.2 := by
  cases node with
  | text content => exact absurd h List.not_mem_nil
  | special kind content => exact absurd h List.not_mem_nil
  | element tag children =>
      rw [Node.placed, List.mem_cons] at h
      rcases h with rfl | hbelow
      · exact ⟨[], (List.append_nil path).symm, rfl⟩
      · rcases exists_steps_of_mem_placedOf tag.name (role.within tag.name) path 0 children p
          hbelow with ⟨index, node, steps, hpath, hnode, hsteps⟩
        refine ⟨index :: steps, by rw [hpath, Nat.zero_add], ?_⟩
        rw [Element.ofNode, Element.follow?, hnode]
        exact hsteps

/-- An element that is listed with a path is what the path leads to: its first step is one of the
    nodes, and the others go on from there. -/
theorem exists_steps_of_mem_placedOf (parent : String) (role : TextRole) (path : Path)
    (index : Nat) (nodes : List Node) (p : Path × Element)
    (h : p ∈ placedOf parent role path index nodes) :
    ∃ i node steps, p.1 = path ++ (index + i) :: steps ∧ nodes[i]? = some node ∧
      (Element.ofNode parent role node).follow? steps = some p.2 := by
  cases nodes with
  | nil => exact absurd h List.not_mem_nil
  | cons node nodes =>
      rw [placedOf, List.mem_append] at h
      rcases h with hnode | hrest
      · rcases Node.exists_steps_of_mem_placed parent role (path ++ [index]) node p hnode with
          ⟨steps, hpath, hsteps⟩
        refine ⟨0, node, steps, ?_, rfl, hsteps⟩
        rw [hpath, List.append_assoc]
        rfl
      · rcases exists_steps_of_mem_placedOf parent role path (index + 1) nodes p hrest with
          ⟨i, next, steps, hpath, hnext, hsteps⟩
        refine ⟨i + 1, next, steps, ?_, hnext, hsteps⟩
        rw [hpath, show index + 1 + i = index + (i + 1) by omega]

end

/-- The paths below nodes begin with the numbers of the nodes. -/
theorem exists_index_of_mem_placedOf (parent : String) (role : TextRole) (path : Path)
    (nodes : List Node) (p : Path × Element) (h : p ∈ placedOf parent role path 0 nodes) :
    ∃ i steps, p.1 = path ++ i :: steps ∧ i < nodes.length := by
  rcases exists_steps_of_mem_placedOf parent role path 0 nodes p h with
    ⟨i, node, steps, hpath, hnode, _⟩
  refine ⟨i, steps, by rw [hpath, Nat.zero_add], ?_⟩
  exact (List.getElem?_eq_some_iff.mp hnode).1

/-- On a page, a listed path leads to its element. -/
theorem Document.element?_of_mem_placed (d : Document) (p : Path × Element)
    (h : p ∈ d.root.placed []) : d.element? p.1 = some p.2 := by
  rcases exists_steps_of_mem_placedOf _ _ [] 0 d.root.nodes p h with
    ⟨i, node, steps, hpath, hnode, hsteps⟩
  rw [hpath, List.nil_append, Nat.zero_add, Document.element?, Element.follow?, hnode]
  exact hsteps

mutual

theorem Node.placed_subset_of_mem_placed (parent : String) (role : TextRole) (path : Path)
    (node : Node) (p : Path × Element) (h : p ∈ node.placed parent role path) :
    p.2.placed p.1 ⊆ node.placed parent role path := by
  cases node with
  | text content => exact absurd h List.not_mem_nil
  | special kind content => exact absurd h List.not_mem_nil
  | element tag children =>
      rw [Node.placed, List.mem_cons] at h
      intro q hq
      rw [Node.placed]
      rcases h with rfl | hbelow
      · exact List.mem_cons_of_mem _ hq
      · exact List.mem_cons_of_mem _
          (placed_subset_of_mem_placedOf tag.name _ path 0 children p hbelow hq)

/-- What is below a listed element is listed too. -/
theorem placed_subset_of_mem_placedOf (parent : String) (role : TextRole) (path : Path)
    (index : Nat) (nodes : List Node) (p : Path × Element)
    (h : p ∈ placedOf parent role path index nodes) :
    p.2.placed p.1 ⊆ placedOf parent role path index nodes := by
  cases nodes with
  | nil => exact absurd h List.not_mem_nil
  | cons node nodes =>
      rw [placedOf, List.mem_append] at h
      intro q hq
      rw [placedOf, List.mem_append]
      rcases h with hnode | hrest
      · exact Or.inl (Node.placed_subset_of_mem_placed parent role _ node p hnode hq)
      · exact Or.inr (placed_subset_of_mem_placedOf parent role path _ nodes p hrest hq)

end

namespace ReplacedAt

variable {old new : Node} {path : Path} {nodes nodes' : List Node}

/-- One more node in front of both lists. -/
theorem cons {index : Nat} (node : Node) (h : ReplacedAt old new (index :: path) nodes nodes') :
    ReplacedAt old new ((index + 1) :: path) (node :: nodes) (node :: nodes') := by
  cases h with
  | here front back => exact here (node :: front) back
  | inside front back tag h => exact inside (node :: front) back tag h

theorem path_ne_nil (h : ReplacedAt old new path nodes nodes') : path ≠ [] := by
  cases h <;> exact List.cons_ne_nil _ _

end ReplacedAt

mutual

/-- Either the node itself is the element, or the element can be replaced below it. -/
theorem Node.exists_replacedAt_of_mem_placed (new : Node) (parent : String) (role : TextRole)
    (path : Path) (node : Node) (p : Path × Element) (h : p ∈ node.placed parent role path) :
    ∃ steps, p.1 = path ++ steps ∧
      ((steps = [] ∧ node = .element p.2.tag p.2.nodes) ∨
        ∃ tag children children', node = .element tag children ∧
          ReplacedAt (.element p.2.tag p.2.nodes) new steps children children') := by
  cases node with
  | text content => exact absurd h List.not_mem_nil
  | special kind content => exact absurd h List.not_mem_nil
  | element tag children =>
      rw [Node.placed, List.mem_cons] at h
      rcases h with rfl | hbelow
      · exact ⟨[], (List.append_nil path).symm, Or.inl ⟨rfl, rfl⟩⟩
      · rcases exists_replacedAt_of_mem_placedOf new tag.name (role.within tag.name) path 0
          children p hbelow with ⟨i, steps, children', hpath, hreplaced⟩
        refine ⟨i :: steps, by rw [hpath, Nat.zero_add], Or.inr ?_⟩
        exact ⟨tag, children, children', rfl, hreplaced⟩

/-- A listed element can be replaced by any node. -/
theorem exists_replacedAt_of_mem_placedOf (new : Node) (parent : String) (role : TextRole)
    (path : Path) (index : Nat) (nodes : List Node) (p : Path × Element)
    (h : p ∈ placedOf parent role path index nodes) :
    ∃ i steps nodes', p.1 = path ++ (index + i) :: steps ∧
      ReplacedAt (.element p.2.tag p.2.nodes) new (i :: steps) nodes nodes' := by
  cases nodes with
  | nil => exact absurd h List.not_mem_nil
  | cons node nodes =>
      rw [placedOf, List.mem_append] at h
      rcases h with hnode | hrest
      · rcases Node.exists_replacedAt_of_mem_placed new parent role (path ++ [index]) node p
          hnode with ⟨steps, hpath, hcases⟩
        rw [List.append_assoc] at hpath
        rcases hcases with ⟨rfl, rfl⟩ | ⟨tag, children, children', rfl, hreplaced⟩
        · exact ⟨0, [], _, hpath, ReplacedAt.here [] nodes⟩
        · exact ⟨0, steps, _, hpath, ReplacedAt.inside [] nodes tag hreplaced⟩
      · rcases exists_replacedAt_of_mem_placedOf new parent role path (index + 1) nodes p hrest with
          ⟨i, steps, nodes', hpath, hreplaced⟩
        refine ⟨i + 1, steps, node :: nodes', ?_, hreplaced.cons node⟩
        rw [hpath, show index + 1 + i = index + (i + 1) by omega]

end

/-- A listed element of a page can be replaced by any node. -/
theorem Document.exists_replacedAt_of_mem_placed (d : Document) (new : Node) (p : Path × Element)
    (h : p ∈ d.root.placed []) :
    ∃ d' : Document, ReplacedAt (.element p.2.tag p.2.nodes) new p.1 d.nodes d'.nodes := by
  rcases exists_replacedAt_of_mem_placedOf new _ _ [] 0 d.root.nodes p h with
    ⟨i, steps, nodes', hpath, hreplaced⟩
  rw [List.nil_append, Nat.zero_add] at hpath
  refine ⟨⟨nodes'⟩, ?_⟩
  rw [hpath]
  exact hreplaced

theorem modify_append_cons (front back : List Node) (node : Node) (f : Node → Node) :
    (front ++ node :: back).modify front.length f = front ++ f node :: back := by
  rw [List.modify_eq_take_drop, List.take_left', List.drop_left']
  · rfl
  · rfl
  · rfl

namespace ReplacedAt

variable {old new : Node} {path : Path} {nodes nodes' : List Node}

/-- Changing the node at the place gives the other list. -/
theorem modifyAt_eq (h : ReplacedAt old new path nodes nodes') (f : Node → Node)
    (hf : f old = new) : modifyAt f path nodes = nodes' := by
  induction h with
  | here front back => rw [modifyAt, modify_append_cons, hf]
  | inside front back tag h ih =>
      rw [modifyAt, modify_append_cons]
      · simp only [ih]
      · exact h.path_ne_nil

/-- The listings of the two lists. What is listed before the place has the same tags in both and
    other paths than the place, and what is listed after the nodes at the place is the same. -/
theorem placedOf_split (h : ReplacedAt old new path nodes nodes') (parent : String)
    (role : TextRole) (base : Path) :
    ∃ parent' role' front front' back,
      placedOf parent role base 0 nodes =
          front ++ (old.placed parent' role' (base ++ path) ++ back) ∧
        placedOf parent role base 0 nodes' =
          front' ++ (new.placed parent' role' (base ++ path) ++ back) ∧
        front'.map (fun p => p.2.tag) = front.map (fun p => p.2.tag) ∧
        ∀ p ∈ front, p.1 ≠ base ++ path := by
  -- What stands in front of a node in a list has smaller numbers.
  have hbefore : ∀ (front : List Node) (rest : Path) (parent : String) (role : TextRole)
      (base : Path), ∀ p ∈ placedOf parent role base 0 front,
        p.1 ≠ base ++ front.length :: rest := by
    intro front rest parent role base p hp heq
    rcases exists_index_of_mem_placedOf parent role base front p hp with ⟨i, steps, hpath, hlt⟩
    rw [hpath] at heq
    have hi := (List.cons.inj (List.append_cancel_left heq)).1
    omega
  induction h generalizing parent role base with
  | here front back =>
      refine ⟨parent, role, placedOf parent role base 0 front, placedOf parent role base 0 front,
        placedOf parent role base (front.length + 1) back, ?_, ?_, rfl,
        hbefore front [] parent role base⟩
      · rw [placedOf_append, placedOf, Nat.zero_add]
      · rw [placedOf_append, placedOf, Nat.zero_add]
  | @inside front back tag path children children' h ih =>
      rcases ih tag.name (role.within tag.name) (base ++ [front.length]) with
        ⟨parent', role', inner, inner', after, hold, hnew, htags, hpaths⟩
      have hpath : base ++ [front.length] ++ path = base ++ front.length :: path := by
        rw [List.append_assoc]
        rfl
      rw [hpath] at hold hnew hpaths
      have hlist : ∀ children,
          placedOf parent role base 0 (front ++ .element tag children :: back) =
            placedOf parent role base 0 front ++
              (base ++ [front.length], ⟨parent, role, tag, children⟩) ::
                (placedOf tag.name (role.within tag.name) (base ++ [front.length]) 0 children ++
                  placedOf parent role base (front.length + 1) back) := by
        intro children
        rw [placedOf_append, placedOf, Nat.zero_add, Node.placed, List.cons_append]
      refine ⟨parent', role',
        placedOf parent role base 0 front ++
          (base ++ [front.length], ⟨parent, role, tag, children⟩) :: inner,
        placedOf parent role base 0 front ++
          (base ++ [front.length], ⟨parent, role, tag, children'⟩) :: inner',
        after ++ placedOf parent role base (front.length + 1) back, ?_, ?_, ?_, ?_⟩
      · rw [hlist, hold]
        simp only [List.append_assoc, List.cons_append]
      · rw [hlist, hnew]
        simp only [List.append_assoc, List.cons_append]
      · simp only [List.map_append, List.map_cons, htags]
      · intro p hp
        rw [List.mem_append, List.mem_cons] at hp
        rcases hp with hfront | rfl | hinner
        · exact hbefore front path parent role base p hfront
        · -- The element around the place stands above it.
          intro heq
          have htail := (List.cons.inj (List.append_cancel_left heq)).2
          exact h.path_ne_nil htail.symm
        · exact hpaths p hinner

/-- Where the two nodes have the same strings, the lists have. -/
theorem stringsOf_eq (h : ReplacedAt old new path nodes nodes')
    (hstrings : ∀ role, new.strings role = old.strings role) (role : TextRole) :
    stringsOf role nodes' = stringsOf role nodes := by
  induction h generalizing role with
  | here front back =>
      simp only [stringsOf_eq_flatMap, List.flatMap_append, List.flatMap_cons, hstrings role]
  | inside front back tag h ih =>
      have hlist : ∀ children, stringsOf role (front ++ .element tag children :: back) =
          stringsOf role front ++
            (stringsOf (role.within tag.name) children ++ stringsOf role back) := by
        intro children
        simp only [stringsOf_eq_flatMap role, List.flatMap_append, List.flatMap_cons, Node.strings]
      rw [hlist, hlist, ih]

/-- Where the second node is an element that holds the first one alone, unwrapping it gives the
    first list back. -/
theorem unwrapAt_eq {tag : Tag} (h : ReplacedAt old (.element tag [old]) path nodes nodes') :
    unwrapAt path nodes' = nodes := by
  induction h with
  | here front back =>
      rw [unwrapAt, List.drop_left' rfl]
      simp only [List.take_left' rfl, Node.contents, List.append_assoc, List.cons_append,
        List.nil_append]
  | inside front back other h ih =>
      rw [unwrapAt, modify_append_cons]
      · simp only [ih]
      · exact h.path_ne_nil

end ReplacedAt

end Dom

end PageDistill
