import Mathlib.Data.List.Flatten
import PageDistill.Proofs.Dom.Descendants
import PageDistill.Proofs.Text.Visible

/-!
# The Text of a Page

The contents of the text nodes of a page, in document order.

This is the text that is really there. What an element says (`Element.text`) is another
matter: it leaves out the text that has a role of its own and takes character data in. The
two agree on pages where no element gives a role to its text and there is no character data.

For tables it matters what a text stands in, so `placedTexts` lists every text with the
names of the elements around it. From the elements of some names all text can be read off
when each visible text has exactly one of them around it; `visible_textOf_of_covered` says
so. Its proof goes down to the first such element on every way. Below that element there is
no other with visible text in it, since the text would then have two around it.

## Main definitions

* `textOf`: The text of nodes.
* `placedTexts`: The texts with the names around them.
* `Covered`: All visible texts have the same number of elements of some names around them.

## Theorems

* `Element.exists_between`: What stands in an element below stands below.
* `visible_textOf_of_covered`: The text of some nodes as the text of the elements that cover it.
-/

namespace PageDistill

open Text (visible)

namespace Dom

mutual

/-- The text of a node. -/
def Node.ownText : Node → List Char
  | .text content => content.toList
  | .special .. => []
  | .element _ children => textOf children

/-- The text of nodes: the contents of the text nodes in document order. -/
def textOf : List Node → List Char
  | [] => []
  | node :: nodes => node.ownText ++ textOf nodes

end

mutual

/-- The texts of a node that has elements of some names around it. -/
def Node.placedTexts (around : List String) : Node → List (List String × String)
  | .text content => [(around, content)]
  | .special .. => []
  | .element tag children => placedTexts (around ++ [tag.name]) children

/-- The texts of nodes with the names of the elements around each, the outermost first. -/
def placedTexts (around : List String) : List Node → List (List String × String)
  | [] => []
  | node :: nodes => node.placedTexts around ++ placedTexts around nodes

end

/-- A text that a reader sees something of. -/
def Shows (content : String) : Prop := visible content.toList ≠ []

instance (content : String) : Decidable (Shows content) :=
  inferInstanceAs (Decidable (visible content.toList ≠ []))

theorem textOf_cons (node : Node) (nodes : List Node) :
    textOf (node :: nodes) = node.ownText ++ textOf nodes := by
  rw [textOf]

theorem textOf_singleton (node : Node) : textOf [node] = node.ownText := List.append_nil _

mutual

/-- The elements around a node are around its texts. -/
theorem Node.isPrefix_of_mem_placedTexts (around : List String) (node : Node)
    (p : List String × String) (h : p ∈ node.placedTexts around) : around <+: p.1 := by
  cases node with
  | text content =>
      rw [Node.placedTexts, List.mem_singleton] at h
      subst h
      exact List.prefix_rfl
  | special kind content => exact absurd h List.not_mem_nil
  | element tag children =>
      rw [Node.placedTexts] at h
      exact (List.prefix_append around [tag.name]).trans
        (isPrefix_of_mem_placedTexts _ children p h)

/-- The texts of nodes have all names around them that the nodes have. -/
theorem isPrefix_of_mem_placedTexts (around : List String) (nodes : List Node)
    (p : List String × String) (h : p ∈ placedTexts around nodes) : around <+: p.1 := by
  cases nodes with
  | nil => exact absurd h List.not_mem_nil
  | cons node nodes =>
      rw [placedTexts, List.mem_append] at h
      rcases h with hnode | hrest
      · exact Node.isPrefix_of_mem_placedTexts around node p hnode
      · exact isPrefix_of_mem_placedTexts around nodes p hrest

end

mutual

/-- A node shows nothing if none of its texts does. -/
theorem Node.visible_ownText_eq_nil (around : List String) (node : Node)
    (h : ∀ p ∈ node.placedTexts around, ¬ Shows p.2) : visible node.ownText = [] := by
  cases node with
  | text content =>
      have hcontent := h (around, content) (by rw [Node.placedTexts]; exact List.mem_cons_self)
      exact Decidable.not_not.mp hcontent
  | special kind content => rfl
  | element tag children =>
      rw [Node.ownText]
      rw [Node.placedTexts] at h
      exact visible_textOf_eq_nil _ children h

/-- Nodes without a text that shows have nothing to see. -/
theorem visible_textOf_eq_nil (around : List String) (nodes : List Node)
    (h : ∀ p ∈ placedTexts around nodes, ¬ Shows p.2) : visible (textOf nodes) = [] := by
  cases nodes with
  | nil => rfl
  | cons node nodes =>
      rw [placedTexts] at h
      rw [textOf_cons, Text.visible_append,
        Node.visible_ownText_eq_nil around node fun p hp => h p (List.mem_append_left _ hp),
        visible_textOf_eq_nil around nodes fun p hp => h p (List.mem_append_right _ hp)]
      rfl

end

/-- All texts that show have the same number of elements of some names around them, counted
    from a place on. -/
def Covered (names : String → Bool) (count : Nat) (around : List String)
    (texts : List (List String × String)) : Prop :=
  ∀ p ∈ texts, Shows p.2 → p.1.countP names = around.countP names + count

/-- Some of the texts are covered if all of them are. -/
theorem Covered.mono {names : String → Bool} {count : Nat} {around : List String}
    {texts more : List (List String × String)} (h : Covered names count around more)
    (hsub : ∀ p ∈ texts, p ∈ more) : Covered names count around texts :=
  fun p hp hshows => h p (hsub p hp) hshows

section

variable {names : String → Bool} {around : List String} {tag : Tag} {children : List Node}

/-- One step down to an element of another name, nothing is counted. -/
theorem Covered.of_not_named {count : Nat}
    (h : Covered names count around ((Node.element tag children).placedTexts around))
    (hname : names tag.name = false) :
    Covered names count (around ++ [tag.name]) (placedTexts (around ++ [tag.name]) children) := by
  intro p hp hshows
  rw [h p (by rw [Node.placedTexts]; exact hp) hshows, List.countP_append,
    List.countP_singleton, hname]
  rfl

/-- One step down to an element of the names, one less remains to be counted. -/
theorem Covered.of_named {count : Nat}
    (h : Covered names (count + 1) around ((Node.element tag children).placedTexts around))
    (hname : names tag.name = true) :
    Covered names count (around ++ [tag.name]) (placedTexts (around ++ [tag.name]) children) := by
  intro p hp hshows
  rw [h p (by rw [Node.placedTexts]; exact hp) hshows, List.countP_append,
    List.countP_singleton, hname, if_pos rfl]
  omega

/-- When none of the elements covers anything, an element of the names shows nothing. -/
theorem Covered.not_shows
    (h : Covered names 0 around ((Node.element tag children).placedTexts around))
    (hname : names tag.name = true) :
    ∀ p ∈ placedTexts (around ++ [tag.name]) children, ¬ Shows p.2 := by
  intro p hp hshows
  -- The element itself would have to be counted, but nothing is left to count.
  have hcount := h p (by rw [Node.placedTexts]; exact hp) hshows
  have hle : (around ++ [tag.name]).countP names ≤ p.1.countP names :=
    (isPrefix_of_mem_placedTexts _ children p hp).sublist.countP_le
  rw [List.countP_append, List.countP_singleton, hname, if_pos rfl] at hle
  omega

end

mutual

/-- When the texts of a node have none of the names around them, its elements of the names show
    nothing. -/
theorem Node.visible_eq_nil_of_covered (names : String → Bool) (around : List String)
    (parent : String) (role : TextRole) (node : Node)
    (h : Covered names 0 around (node.placedTexts around)) :
    (((node.elements parent role).filter fun d => names d.name).flatMap fun d =>
      visible (textOf d.nodes)) = [] := by
  cases node with
  | text content => rfl
  | special kind content => rfl
  | element tag children =>
      rw [Node.elements, List.filter_cons, Element.name_mk]
      by_cases hname : names tag.name = true
      · -- An element of the names, and all those below it, have only hidden text.
        have hhidden := h.not_shows hname
        rw [if_pos hname, List.flatMap_cons, visible_textOf_eq_nil _ _ hhidden]
        exact visible_eq_nil_of_covered names _ _ _ children fun p hp hshows =>
          absurd hshows (hhidden p hp)
      · rw [if_neg hname]
        exact visible_eq_nil_of_covered names _ _ _ children
          (h.of_not_named (eq_false_of_ne_true hname))

theorem visible_eq_nil_of_covered (names : String → Bool) (around : List String)
    (parent : String) (role : TextRole) (nodes : List Node)
    (h : Covered names 0 around (placedTexts around nodes)) :
    (((elementsOf parent role nodes).filter fun d => names d.name).flatMap fun d =>
      visible (textOf d.nodes)) = [] := by
  cases nodes with
  | nil => rfl
  | cons node nodes =>
      rw [placedTexts] at h
      rw [elementsOf, List.filter_append, List.flatMap_append,
        Node.visible_eq_nil_of_covered names around parent role node
          (h.mono fun p hp => List.mem_append_left _ hp),
        visible_eq_nil_of_covered names around parent role nodes
          (h.mono fun p hp => List.mem_append_right _ hp)]
      rfl

end

mutual

theorem Node.visible_ownText_of_covered (names : String → Bool) (around : List String)
    (parent : String) (role : TextRole) (node : Node)
    (h : Covered names 1 around (node.placedTexts around)) :
    visible node.ownText =
      ((node.elements parent role).filter fun d => names d.name).flatMap fun d =>
        visible (textOf d.nodes) := by
  cases node with
  | text content =>
      -- A text that shows would stand in one of the named elements, and there is none around.
      have hhidden : ¬ Shows content := by
        intro hshows
        have hcount := h (around, content) (by rw [Node.placedTexts]; exact List.mem_cons_self)
          hshows
        simp only at hcount
        omega
      exact Decidable.not_not.mp hhidden
  | special kind content => rfl
  | element tag children =>
      rw [Node.ownText, Node.elements, List.filter_cons, Element.name_mk]
      by_cases hname : names tag.name = true
      · -- All the text is in this element, and none of it in another one below.
        rw [if_pos hname, List.flatMap_cons,
          visible_eq_nil_of_covered names _ _ _ children (h.of_named hname), List.append_nil]
      · rw [if_neg hname]
        exact visible_textOf_of_covered names _ _ _ children
          (h.of_not_named (eq_false_of_ne_true hname))

/-- When each text that shows has exactly one of the names around it, the elements of the
    names show all there is, in order. -/
theorem visible_textOf_of_covered (names : String → Bool) (around : List String)
    (parent : String) (role : TextRole) (nodes : List Node)
    (h : Covered names 1 around (placedTexts around nodes)) :
    visible (textOf nodes) =
      ((elementsOf parent role nodes).filter fun d => names d.name).flatMap fun d =>
        visible (textOf d.nodes) := by
  cases nodes with
  | nil => rfl
  | cons node nodes =>
      rw [placedTexts] at h
      rw [textOf_cons, Text.visible_append, elementsOf, List.filter_append, List.flatMap_append,
        Node.visible_ownText_of_covered names around parent role node
          (h.mono fun p hp => List.mem_append_left _ hp),
        visible_textOf_of_covered names around parent role nodes
          (h.mono fun p hp => List.mem_append_right _ hp)]

end

/-- The texts of nodes are those of each, in a row. -/
theorem placedTexts_eq_flatMap (around : List String) (nodes : List Node) :
    placedTexts around nodes = nodes.flatMap (Node.placedTexts around) := by
  induction nodes with
  | nil => rfl
  | cons node nodes ih => rw [placedTexts, ih, List.flatMap_cons]

/-- Strings without the blank around them, and without those that are blank, show the same. -/
theorem flatMap_visible_trimmed (strings : List (List Char)) :
    ((strings.map Text.trim).filter fun s => !s.isEmpty).flatMap visible =
      visible strings.flatten := by
  induction strings with
  | nil => rfl
  | cons s strings ih =>
      have hvisible := Text.visible_trim s
      rw [List.map_cons, List.filter_cons, List.flatten_cons, Text.visible_append, ← ih]
      by_cases hempty : (Text.trim s).isEmpty = true
      · rw [List.isEmpty_iff.mp hempty] at hvisible ⊢
        rw [← hvisible]
        rfl
      · rw [if_pos (by simpa using hempty), List.flatMap_cons, hvisible]

namespace Element

/-- An element says no less with every string trimmed. -/
theorem visible_spacedText (e : Element) : visible e.spacedText = visible e.text := by
  rw [spacedText, Text.visible_joinWith [' '] (by decide)]
  exact flatMap_visible_trimmed e.strings

/-- The texts of a child stand in the element too, one name further in. -/
theorem placedTexts_subset_of_mem_children {e c : Element} (h : c ∈ e.children)
    (around : List String) :
    placedTexts (around ++ [c.name]) c.nodes ⊆ placedTexts around e.nodes := by
  intro p hp
  rcases (mem_children_iff e c).mp h with ⟨hnode, _, _⟩
  rw [placedTexts_eq_flatMap around]
  exact List.mem_flatMap.mpr ⟨_, hnode, hp⟩

/-- The texts of a descendant stand in the element too, with some names between. -/
theorem exists_between (e d : Element) (around : List String) (hd : d ∈ e.descendants) :
    ∃ between, placedTexts (around ++ between ++ [d.name]) d.nodes ⊆
      placedTexts around e.nodes := by
  refine descendants_induction (motive := fun d => ∃ between,
    placedTexts (around ++ between ++ [d.name]) d.nodes ⊆ placedTexts around e.nodes) e
    (fun c hc => ⟨[], ?_⟩) (fun d c hd hc => ?_) d hd
  · rw [List.append_nil]
    exact placedTexts_subset_of_mem_children hc around
  · rcases hd with ⟨between, hsub⟩
    refine ⟨between ++ [d.name], ?_⟩
    rw [← List.append_assoc]
    exact List.Subset.trans (placedTexts_subset_of_mem_children hc _) hsub

end Element

end Dom

end PageDistill
