import Mathlib.Data.List.Forall2
import PageDistill.Proofs.Dom.Descendants

/-!
# Similar Pages

Two pages of the same shape, which may differ in their attributes and below hidden elements.

`Similar attrs hidden` relates nodes that are equal up to two things. Tags have the same name,
and their attributes are related by `attrs`. The contents of an element may be any nodes at
all, in both pages, as long as they are `hidden`. Whether some contents are hidden may depend
on where they stand, so the relation carries the names of the elements around, the outermost
first, and the role of the text there.

What one asks of an element comes out alike for similar elements when the question does not
reach the hidden parts. There are three kinds of questions: the strings of some classes
(`AllSimilar.filter_strings`), the elements of some names (`AllSimilar.filter_elements`), and
the children (`Mates.children`). For each it is enough that hidden contents at any place
below hold nothing that the question asks for. Elements that are found come in pairs that are
similar again (`Mates`), with some names between.

## Main definitions

* `SameAttrs`: Tags whose attributes have the same values.
* `Similar`, `AllSimilar`: The relation on nodes and on lists of nodes.
* `Mates`: Similar elements.

## Theorems

* `AllSimilar.refl`, `AllSimilar.mono`: Equal nodes are similar, and weaker relations hold of
  more nodes.
* `AllSimilar.filter_strings`, `AllSimilar.filter_elements`, `Mates.children`: The
  questions.
* `AllSimilar.heightOf_eq`, `AllSimilar.trans`: Without hidden parts the nesting is as deep, and
  the relation is transitive.
-/

namespace PageDistill

namespace Dom

/-- Tags whose attributes have the same values, in whatever order they stand. -/
def SameAttrs (tag tag' : Tag) : Prop := ∀ name, tag'.attr? name = tag.attr? name

namespace SameAttrs

variable {tag tag' : Tag} (h : SameAttrs tag tag')

include h

theorem text?_eq (name : String) : tag'.text? name = tag.text? name := by
  rw [Tag.text?, Tag.text?, h name]

theorem filled?_eq (name : String) : tag'.filled? name = tag.filled? name := by
  rw [Tag.filled?, Tag.filled?, h name]

theorem shown_eq (name : String) : tag'.shown name = tag.shown name := by
  rw [Tag.shown, Tag.shown, h.filled?_eq name]

theorem hasAttr_eq (name : String) : tag'.hasAttr name = tag.hasAttr name := by
  rw [Tag.hasAttr, Tag.hasAttr, h name]

theorem hasText_eq (name text : String) : tag'.hasText name text = tag.hasText name text := by
  rw [Tag.hasText, Tag.hasText, h name]

theorem classes_eq : tag'.classes = tag.classes := by
  rw [Tag.classes, Tag.classes, h "class"]

end SameAttrs

/-- The strings that an element of a name says. -/
def tells (name : String) (kind : StringClass) : Bool :=
  match TextRole.ofName? name with
  | some role => kind == .text role
  | none => kind == .text .ordinary || kind == .special .cdata

/-- A relation between the attributes of two tags. -/
abbrev AttrRel := Tag → Tag → Prop

/-- A condition on the contents of an element, with the names of the elements around it, the
    role of the text around it, and its tag. -/
abbrev Hiding := List String → TextRole → Tag → List Node → Prop

/-- Lists in step, with the knowledge that the members are members. -/
theorem forall₂_with_mem {α β : Type} {related : α → β → Prop} {l : List α} {l' : List β}
    (h : List.Forall₂ related l l') :
    List.Forall₂ (fun a b => a ∈ l ∧ b ∈ l' ∧ related a b) l l' := by
  induction h with
  | nil => exact .nil
  | cons hhead _ ih =>
      refine .cons ⟨List.mem_cons_self, List.mem_cons_self, hhead⟩ (ih.imp fun a b hab => ?_)
      exact ⟨List.mem_cons_of_mem _ hab.1, List.mem_cons_of_mem _ hab.2.1, hab.2.2⟩

/-- Nothing is hidden. -/
def nothingHidden : Hiding := fun _ _ _ _ => False

mutual

/-- Nodes that are equal but for attributes and hidden contents. -/
inductive Similar (attrs : AttrRel) (hidden : Hiding) :
    List String → TextRole → Node → Node → Prop where
  | text (around : List String) (role : TextRole) (content : String) :
    Similar attrs hidden around role (.text content) (.text content)
  | special (around : List String) (role : TextRole) (kind : Special) (content : String) :
    Similar attrs hidden around role (.special kind content) (.special kind content)
  | element {around : List String} {role : TextRole} {tag tag' : Tag} {nodes nodes' : List Node}
    (hname : tag'.name = tag.name) (hattrs : attrs tag tag')
    (h : AllSimilar attrs hidden (around ++ [tag.name]) (role.within tag.name) nodes nodes') :
    Similar attrs hidden around role (.element tag nodes) (.element tag' nodes')
  | hidden {around : List String} {role : TextRole} {tag tag' : Tag} {nodes nodes' : List Node}
    (hname : tag'.name = tag.name) (hattrs : attrs tag tag')
    (h : hidden around role tag nodes) (h' : hidden around role tag' nodes') :
    Similar attrs hidden around role (.element tag nodes) (.element tag' nodes')

/-- Lists of similar nodes. -/
inductive AllSimilar (attrs : AttrRel) (hidden : Hiding) :
    List String → TextRole → List Node → List Node → Prop where
  | nil (around : List String) (role : TextRole) : AllSimilar attrs hidden around role [] []
  | cons {around : List String} {role : TextRole} {node node' : Node} {nodes nodes' : List Node}
    (h : Similar attrs hidden around role node node')
    (hrest : AllSimilar attrs hidden around role nodes nodes') :
    AllSimilar attrs hidden around role (node :: nodes) (node' :: nodes')

end

/-- Elements of one name in two pages, with related attributes and similar nodes below. -/
structure Mates (attrs : AttrRel) (hidden : Hiding) (around : List String) (e e' : Element) :
    Prop where
  name : e'.name = e.name
  tag : attrs e.tag e'.tag
  role : e'.innerRole = e.innerRole
  nodes : AllSimilar attrs hidden around e.innerRole e.nodes e'.nodes

section

variable {attrs : AttrRel} {hidden : Hiding}

mutual

/-- A node is similar to itself. -/
theorem Similar.refl (hattrs : ∀ tag, attrs tag tag) (around : List String) (role : TextRole)
    (node : Node) : Similar attrs hidden around role node node := by
  cases node with
  | text content => exact .text around role content
  | special kind content => exact .special around role kind content
  | element tag nodes => exact .element rfl (hattrs tag) (AllSimilar.refl hattrs _ _ nodes)

/-- Equal nodes are similar. -/
theorem AllSimilar.refl (hattrs : ∀ tag, attrs tag tag) (around : List String) (role : TextRole)
    (nodes : List Node) : AllSimilar attrs hidden around role nodes nodes := by
  cases nodes with
  | nil => exact .nil around role
  | cons node nodes =>
      exact .cons (Similar.refl hattrs around role node) (AllSimilar.refl hattrs around role nodes)

end

variable {around : List String} {role : TextRole} {nodes nodes' : List Node}

section

variable {attrs' : AttrRel} {hidden' : Hiding}

mutual

/-- Less may be asked of attributes, and more may be hidden. -/
theorem Similar.mono (hattrs : ∀ tag tag', attrs tag tag' → attrs' tag tag')
    (hhidden : ∀ around role tag nodes, hidden around role tag nodes →
      hidden' around role tag nodes) {around : List String} {role : TextRole} {node node' : Node}
    (h : Similar attrs hidden around role node node') :
    Similar attrs' hidden' around role node node' := by
  cases h with
  | text content => exact .text around role _
  | special kind content => exact .special around role _ _
  | element hname htags h => exact .element hname (hattrs _ _ htags) (h.mono hattrs hhidden)
  | hidden hname htags h h' =>
      exact .hidden hname (hattrs _ _ htags) (hhidden _ _ _ _ h) (hhidden _ _ _ _ h')

/-- Weaker relations hold of more nodes. -/
theorem AllSimilar.mono (hattrs : ∀ tag tag', attrs tag tag' → attrs' tag tag')
    (hhidden : ∀ around role tag nodes, hidden around role tag nodes →
      hidden' around role tag nodes) {around : List String} {role : TextRole}
    {nodes nodes' : List Node} (h : AllSimilar attrs hidden around role nodes nodes') :
    AllSimilar attrs' hidden' around role nodes nodes' := by
  cases h with
  | nil => exact .nil around role
  | cons h hrest => exact .cons (h.mono hattrs hhidden) (hrest.mono hattrs hhidden)

end

end

/-- Similar lists have similar members in step. -/
theorem AllSimilar.forall₂ (h : AllSimilar attrs hidden around role nodes nodes') :
    List.Forall₂ (Similar attrs hidden around role) nodes nodes' := by
  induction nodes generalizing nodes' with
  | nil =>
      cases h
      exact .nil
  | cons node rest ih =>
      cases h with
      | cons h hrest => exact .cons h (ih hrest)

/-- A text is similar to texts only. -/
theorem Similar.isText_eq {node node' : Node}
    (h : Similar attrs hidden around role node node') : node'.isText = node.isText := by
  cases h <;> rfl

/-- Nodes that are all text are similar to nothing but themselves. -/
theorem AllSimilar.eq_of_isText (h : AllSimilar attrs hidden around role nodes nodes')
    (htext : nodes.all Node.isText = true) : nodes' = nodes := by
  induction nodes generalizing nodes' with
  | nil =>
      cases h
      rfl
  | cons node rest ih =>
      rw [List.all_cons, Bool.and_eq_true] at htext
      cases h with
      | cons h hrest =>
          rw [ih hrest htext.2]
          cases h with
          | text content => rfl
          | special kind content => rfl
          | element hname htags h => exact absurd htext.1 Bool.false_ne_true
          | hidden hname htags h h' => exact absurd htext.1 Bool.false_ne_true

theorem AllSimilar.all_isText_eq (h : AllSimilar attrs hidden around role nodes nodes') :
    nodes'.all Node.isText = nodes.all Node.isText := by
  induction nodes generalizing nodes' with
  | nil =>
      cases h
      rfl
  | cons node rest ih =>
      cases h with
      | cons h hrest => rw [List.all_cons, List.all_cons, h.isText_eq, ih hrest]

mutual

/-- Hidden contents without strings of some classes leave the strings of these classes alike. -/
theorem Similar.filter_strings (keep : ClassedString → Bool) (around : List String)
    (hquiet : ∀ between role tag nodes, hidden (around ++ between) role tag nodes →
      ∀ s ∈ stringsOf (role.within tag.name) nodes, keep s = false)
    {role : TextRole} {node node' : Node} (h : Similar attrs hidden around role node node') :
    (node'.strings role).filter keep = (node.strings role).filter keep := by
  cases h with
  | text content => rfl
  | special kind content => rfl
  | @element _ _ tag tag' nodes nodes' hname htags h =>
      rw [Node.strings, Node.strings, hname]
      refine h.filter_strings keep (around ++ [tag.name]) fun between role inner nodes hhidden => ?_
      rw [List.append_assoc] at hhidden
      exact hquiet _ role inner nodes hhidden
  | @hidden _ _ tag tag' nodes nodes' hname htags h h' =>
      -- What differs is out of sight, and none of its strings is kept on either side.
      have hnone : ∀ (other : Tag) (contents : List Node), hidden around role other contents →
          (stringsOf (role.within other.name) contents).filter keep = [] := by
        intro other contents hhidden
        rw [List.filter_eq_nil_iff]
        intro s hs hkeep
        rw [← List.append_nil around] at hhidden
        rw [hquiet [] role other contents hhidden s hs] at hkeep
        exact absurd hkeep Bool.false_ne_true
      rw [Node.strings, Node.strings, hnone tag nodes h, hnone tag' nodes' h']

/-- Strings of some classes are alike, if hidden contents have none of these. -/
theorem AllSimilar.filter_strings (keep : ClassedString → Bool) (around : List String)
    (hquiet : ∀ between role tag nodes, hidden (around ++ between) role tag nodes →
      ∀ s ∈ stringsOf (role.within tag.name) nodes, keep s = false)
    {role : TextRole} {nodes nodes' : List Node}
    (h : AllSimilar attrs hidden around role nodes nodes') :
    (stringsOf role nodes').filter keep = (stringsOf role nodes).filter keep := by
  cases h with
  | nil => rfl
  | cons h hrest =>
      rw [stringsOf, stringsOf, List.filter_append, List.filter_append,
        h.filter_strings keep around hquiet, hrest.filter_strings keep around hquiet]

end

/-- Elements that say the same: an element says what hidden contents do not hold. -/
theorem Mates.strings_eq {e e' : Element} (h : Mates attrs hidden around e e')
    (hquiet : ∀ between role tag nodes, hidden (around ++ between) role tag nodes →
      ∀ s ∈ stringsOf (role.within tag.name) nodes, e.holds s.kind = false) :
    e'.strings = e.strings := by
  have hholds : e'.holds = e.holds := by
    funext kind
    rw [Element.holds, Element.holds, h.name]
  rw [Element.strings, Element.strings, hholds, h.role]
  exact congrArg _ (h.nodes.filter_strings (fun s => e.holds s.kind) around hquiet)

mutual

theorem Similar.filter_elements (wanted : String → Bool) (around : List String)
    (hquiet : ∀ between role tag nodes, hidden (around ++ between) role tag nodes →
      wanted tag.name = false ∧
        ∀ d ∈ elementsOf tag.name (role.within tag.name) nodes, wanted d.name = false)
    {role : TextRole} {node node' : Node} (parent : String)
    (h : Similar attrs hidden around role node node') :
    List.Forall₂ (fun d d' => ∃ between, Mates attrs hidden (around ++ between ++ [d.name]) d d')
      ((node.elements parent role).filter fun d => wanted d.name)
      ((node'.elements parent role).filter fun d => wanted d.name) := by
  cases h with
  | text content => exact .nil
  | special kind content => exact .nil
  | @element _ _ tag tag' nodes nodes' hname htags h =>
      -- Whatever is found below has the name of this element before it.
      have hbelow := h.filter_elements wanted (around ++ [tag.name])
        (fun between role inner nodes hhidden => by
          rw [List.append_assoc] at hhidden
          exact hquiet _ role inner nodes hhidden) tag.name
      have hbelow := hbelow.imp fun d d' hmates => by
        rcases hmates with ⟨between, hmates⟩
        rw [List.append_assoc around] at hmates
        exact (⟨_, hmates⟩ : ∃ between, Mates attrs hidden (around ++ between ++ [d.name]) d d')
      have hself : Mates attrs hidden (around ++ [] ++ [tag.name]) ⟨parent, role, tag, nodes⟩
          ⟨parent, role, tag', nodes'⟩ := by
        rw [List.append_nil]
        exact ⟨hname, htags, congrArg role.within hname, h⟩
      rw [Node.elements, Node.elements, hname, List.filter_cons, List.filter_cons,
        Element.name_mk, Element.name_mk, hname]
      by_cases hwanted : wanted tag.name = true
      · rw [if_pos hwanted, if_pos hwanted]
        exact .cons ⟨[], hself⟩ hbelow
      · rw [if_neg hwanted, if_neg hwanted]
        exact hbelow
  | @hidden _ _ tag tag' nodes nodes' hname htags h h' =>
      have hnone : ∀ (other : Tag) (contents : List Node), hidden around role other contents →
          ((Node.element other contents).elements parent role).filter
            (fun d => wanted d.name) = [] := by
        intro other contents hhidden
        rw [← List.append_nil around] at hhidden
        have hboth := hquiet [] role other contents hhidden
        rw [Node.elements, List.filter_eq_nil_iff]
        intro d hd hname
        rcases List.mem_cons.mp hd with rfl | hd
        · exact absurd (hname.symm.trans hboth.1) (by decide)
        · exact absurd (hname.symm.trans (hboth.2 d hd)) (by decide)
      rw [hnone tag nodes h, hnone tag' nodes' h']
      exact .nil

/-- Elements of some names come in pairs, if hidden contents have no such elements and are
    not the contents of one. -/
theorem AllSimilar.filter_elements (wanted : String → Bool) (around : List String)
    (hquiet : ∀ between role tag nodes, hidden (around ++ between) role tag nodes →
      wanted tag.name = false ∧
        ∀ d ∈ elementsOf tag.name (role.within tag.name) nodes, wanted d.name = false)
    {role : TextRole} {nodes nodes' : List Node} (parent : String)
    (h : AllSimilar attrs hidden around role nodes nodes') :
    List.Forall₂ (fun d d' => ∃ between, Mates attrs hidden (around ++ between ++ [d.name]) d d')
      ((elementsOf parent role nodes).filter fun d => wanted d.name)
      ((elementsOf parent role nodes').filter fun d => wanted d.name) := by
  cases h with
  | nil => exact .nil
  | cons h hrest =>
      rw [elementsOf, elementsOf, List.filter_append, List.filter_append]
      exact List.rel_append (h.filter_elements wanted around hquiet parent)
        (hrest.filter_elements wanted around hquiet parent)

end

/-- The elements of some names below similar elements, in pairs. -/
theorem Mates.filter_descendants {e e' : Element} (h : Mates attrs hidden around e e')
    (wanted : String → Bool)
    (hquiet : ∀ between role tag nodes, hidden (around ++ between) role tag nodes →
      wanted tag.name = false ∧
        ∀ d ∈ elementsOf tag.name (role.within tag.name) nodes, wanted d.name = false) :
    List.Forall₂ (fun d d' => ∃ between, Mates attrs hidden (around ++ between ++ [d.name]) d d')
      (e.descendants.filter fun d => wanted d.name)
      (e'.descendants.filter fun d => wanted d.name) := by
  rw [Element.descendants, Element.descendants, h.name, h.role]
  exact h.nodes.filter_elements wanted around hquiet e.name

/-- The children come in pairs, if none of them hides its contents. -/
theorem Mates.children {e e' : Element} (h : Mates attrs hidden around e e')
    (hopen : ∀ role tag nodes, ¬ hidden around role tag nodes) :
    List.Forall₂ (fun c c' => Mates attrs hidden (around ++ [c.name]) c c')
      e.children e'.children := by
  -- The nodes are paired off one by one. Only elements are children, and none is out of sight.
  have hnodes := h.nodes
  rw [Element.children, Element.children, h.name, h.role]
  generalize e.nodes = nodes at hnodes
  generalize e'.nodes = nodes' at hnodes
  induction nodes generalizing nodes' with
  | nil =>
      cases hnodes
      exact .nil
  | cons node rest ih =>
      cases hnodes with
      | cons hnode hrest =>
          have hothers := ih _ hrest
          cases hnode with
          | text content => exact hothers
          | special kind content => exact hothers
          | element hname htags hbelow =>
              exact .cons ⟨hname, htags, congrArg e.innerRole.within hname, hbelow⟩ hothers
          | hidden hname htags hbelow hbelow' => exact absurd hbelow (hopen _ _ _)

mutual

/-- Similar nodes are equally high if nothing is hidden. -/
theorem Similar.height_eq {around : List String} {role : TextRole} {node node' : Node}
    (h : Similar attrs nothingHidden around role node node') : node'.height = node.height := by
  cases h with
  | text => rfl
  | special => rfl
  | element hname htags h => rw [Node.height, Node.height, h.heightOf_eq]
  | hidden hname htags h h' => exact h.elim

/-- Without hidden parts the nesting is as deep. -/
theorem AllSimilar.heightOf_eq {around : List String} {role : TextRole} {nodes nodes' : List Node}
    (h : AllSimilar attrs nothingHidden around role nodes nodes') :
    heightOf nodes' = heightOf nodes := by
  cases h with
  | nil => rfl
  | cons h hrest => rw [heightOf, heightOf, h.height_eq, hrest.heightOf_eq]

end

section

variable {attrs' attrs'' : AttrRel}

mutual

/-- Similarity goes on from page to page. -/
theorem Similar.trans (hattrs : ∀ tag tag' tag'', attrs tag tag' → attrs' tag' tag'' →
      tag'.name = tag.name → attrs'' tag tag'')
    {around : List String} {role : TextRole} {node node' node'' : Node}
    (h : Similar attrs nothingHidden around role node node')
    (h' : Similar attrs' nothingHidden around role node' node'') :
    Similar attrs'' nothingHidden around role node node'' := by
  cases h with
  | text => cases h' with | text => exact .text around role _
  | special => cases h' with | special => exact .special around role _ _
  | hidden hname htags h _ => exact h.elim
  | element hname htags h =>
      cases h' with
      | hidden hname' htags' h' _ => exact h'.elim
      | element hname' htags' h' =>
          rw [hname] at h'
          exact .element (hname'.trans hname) (hattrs _ _ _ htags htags' hname) (h.trans hattrs h')

/-- Without hidden parts, what is similar to something similar is similar. -/
theorem AllSimilar.trans (hattrs : ∀ tag tag' tag'', attrs tag tag' → attrs' tag' tag'' →
      tag'.name = tag.name → attrs'' tag tag'')
    {around : List String} {role : TextRole} {nodes nodes' nodes'' : List Node}
    (h : AllSimilar attrs nothingHidden around role nodes nodes')
    (h' : AllSimilar attrs' nothingHidden around role nodes' nodes'') :
    AllSimilar attrs'' nothingHidden around role nodes nodes'' := by
  cases h with
  | nil => cases h' with | nil => exact .nil around role
  | cons h hrest =>
      cases h' with
      | cons h' hrest' => exact .cons (h.trans hattrs h') (hrest.trans hattrs hrest')

end

end

end

end Dom

end PageDistill
