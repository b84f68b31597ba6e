import PageDistill.Proofs.Lower.Tables
import PageDistill.Proofs.Markdown.Shown

/-!
# What Elements Tell

Whether anything shows of what an element is lowered to, told from the page.

What an element says and what it is lowered to are two looks at the same children, and they do not
see the same. An element says what is in a `noscript`, in character data, in a list outside its
items and in a table outside its cells, and nothing of all that is lowered. A link, a quote and a
video say nothing by themselves, and yet they show. So `tells` goes by the rules, level by level:
each says what shows of its own node, or hands the question down. Where no level is left, what the
element says is all there is.

This is exactly what shows of the tree (`lowerLevels_tells`). On a tidy page no text is lost on the
way, so an element that says something tells something there (`tells_of_tidy`).

## Main definitions

* `tellsByRule`, `tellsChild`, `tells`: Whether the contents of an element show.

## Theorems

* `lowerElement_tells`, `lowerChild_tells`: One rule, when the level below is given.
* `lowerLevels_tells`: What shows of the nodes that an element is lowered to.
* `tellsByRule_of_tidy`, `tells_of_tidy`: On a tidy page visible text is told.
-/

namespace PageDistill

open Markdown (Node showsAny)
open Text (visible)

section

variable (o : Options)

/-- Whether the nodes that an element is lowered to show, when it is known of the elements one
    level further down whether their contents do. -/
def tellsByRule (below : Dom.Element → Bool) (e : Dom.Element) : Bool :=
  match Dom.categoryOf o.metadata.wanted e.name with
  | .heading _ => !Text.isAllBlank e.text
  | .emphasis _ => !Text.isAllBlank e.text
  | .code => !Text.isAllBlank e.text
  | .paragraph => below e
  | .semantic _ => below e
  | .unhandled => below e
  | .link => true
  | .video => true
  | .quote => true
  | .image =>
    !(Markdown.imageText (imageAddress o e) ((e.tag.text? "alt").map Markdown.escapeText)).isEmpty
  | .list => !e.children.isEmpty
  | .table => tableColumns e != 0
  | .lineBreak => false
  | .head => false
  | .dropped => false

/-- The same for a child of an element. -/
def tellsChild (below : Dom.Element → Bool) (parent : Dom.Element) : Dom.Node → Bool
  | .text content => !Text.isAllBlank content.toList
  | .special .. => false
  | .element tag nodes => tellsByRule o below ⟨parent.name, parent.innerRole, tag, nodes⟩

/-- Whether the contents of an element show, with some levels left. Where none is left, the
    contents are what the element says. -/
def tells : Nat → Dom.Element → Bool
  | 0, e => !Text.isAllBlank e.text
  | levels + 1, e => e.nodes.any (tellsChild o (tells levels) e)

end

section

variable {o : Options}

/-- A node by itself, with nothing before or behind it. -/
theorem ends_pure_shows {node : Node} {told : Bool} {bad : ConversionError → Prop}
    (h : node.shows = told) :
    (pure [node] : Conversion (List Node)).Ends (fun nodes => showsAny nodes = told) bad :=
  Traced.Ends.pure ((Markdown.showsAny_singleton node).trans h)

theorem showsAny_flattened (e : Dom.Element) :
    showsAny (flattened e) = !Text.isAllBlank e.text := by
  rw [← Text.isAllBlank_congr e.visible_spacedText]
  unfold flattened
  by_cases hempty : e.spacedText.isEmpty = true
  · rw [if_pos hempty, List.isEmpty_iff.mp hempty]
    rfl
  · rw [if_neg hempty, Markdown.showsAny_singleton, Node.shows, String.toList_ofList]

theorem showsAny_lowerCode (e : Dom.Element) :
    showsAny (lowerCode e) = !Text.isAllBlank e.text := by
  unfold lowerCode
  simp only [Text.isEmpty_trim]
  cases Text.isAllBlank e.text <;> rfl

theorem lowerText_tells (content : String) :
    (lowerText o content).Ends (fun nodes => showsAny nodes = !Text.isAllBlank content.toList)
      (fun _ => True) := by
  unfold lowerText
  simp only [Text.isEmpty_trim]
  by_cases hblank : Text.isAllBlank content.toList = true
  · rw [if_pos hblank, hblank]
    exact Traced.Ends.pure rfl
  · rw [if_neg hblank]
    refine (Traced.Ends.debugIf _ _).bind fun _ _ => ends_pure_shows ?_
    rw [Node.shows, String.toList_ofList, Text.isAllBlank_congr (Text.visible_trim _)]

variable {lower : Descent} {below : Dom.Element → Bool}

/-- A link shows whatever is in it. -/
theorem lowerLink_shows (indent : Int) (e : Dom.Element) :
    (lowerLink o lower indent e).Ends (fun node => node.shows = true) (fun _ => True) := by
  unfold lowerLink
  by_cases hdata : isInlineImage ((e.tag.text? "href").getD "#") = true
  · simp only [if_pos hdata]
    exact (Traced.Ends.any _).bind fun _ _ => Traced.Ends.pure rfl
  · simp only [if_neg hdata]
    refine (Traced.Ends.any _).bind fun href _ => ?_
    by_cases honly : e.holdsOnlyText = true
    · rw [if_pos honly]
      exact Traced.Ends.pure rfl
    · rw [if_neg honly]
      exact (Traced.Ends.any _).bind fun _ _ => Traced.Ends.pure rfl

/-- A table shows if it has a column. -/
theorem lowerTable_shows (indent : Int) (e : Dom.Element) :
    (lowerTable o lower indent e).Ends (fun node => node.shows = (tableColumns e != 0))
      (fun _ => True) := by
  have hmade : (lowerTable o lower indent e).Ends
      (fun node => ∃ rows, MadeRows o (fun _ _ => True) e rows ∧ node = tableOf o e rows)
      (fun _ => True) :=
    lowerTable_rows indent (fun _ _ _ _ _ => Traced.Ends.any _) fun _ _ _ _ _ _ => True.intro
  refine hmade.mono fun node hnode => ?_
  rcases hnode with ⟨rows, hrows, rfl⟩
  rcases tableOf_eq o e rows with ⟨colIds, heq⟩
  rw [heq, Node.shows, tableWidth_made hrows, Bool.eq_iff_iff, bne_iff_ne, bne_iff_ne]
  omega

/-- An element is lowered to nodes that show as its rule says, if the contents further down do. -/
theorem lowerElement_tells (hhook : o.unhandledElement = none) (indent : Int) (e : Dom.Element)
    (hlow : ∀ indent, (lower indent e).Ends (fun nodes => showsAny nodes = below e)
      (fun _ => True)) :
    (lowerElement o lower indent e).Ends (fun nodes => showsAny nodes = tellsByRule o below e)
      (fun _ => True) := by
  -- Headings and emphasis are there for what the element says, whatever its contents are.
  have hsaid : ∀ node : List Node → Node, (∀ nodes, (node nodes).shows = true) →
      ((if Text.isAllBlank e.text = true then pure []
        else lower indent e >>= fun nodes => pure [node nodes]) : Conversion (List Node)).Ends
          (fun nodes => showsAny nodes = !Text.isAllBlank e.text) (fun _ => True) := by
    intro node hnode
    by_cases hblank : Text.isAllBlank e.text = true
    · rw [if_pos hblank, hblank]
      exact Traced.Ends.pure rfl
    · rw [if_neg hblank, Bool.eq_false_iff.mpr hblank]
      exact (Traced.Ends.any _).bind fun nodes _ => ends_pure_shows (hnode nodes)
  unfold lowerElement tellsByRule
  refine (Traced.Ends.debugIf _ _).bind fun _ _ => ?_
  cases hcategory : Dom.categoryOf o.metadata.wanted e.name with
  | heading level =>
      have hrange := categoryOf_inRange o.metadata.wanted e.name
      rw [hcategory] at hrange
      refine hsaid (.heading level) fun nodes => ?_
      rw [Node.shows, decide_eq_true (Int.natCast_pos.mpr hrange.1), Bool.true_or]
  | paragraph =>
      refine (hlow indent).bind fun nodes hnodes => Traced.Ends.pure ?_
      rw [Markdown.showsAny_append, hnodes]
      exact Bool.or_false _
  | link =>
      exact (lowerLink_shows indent e).bind fun node hnode => ends_pure_shows hnode
  | image =>
      have hmade : (lowerImage o e).Ends _ (LoweringFault o []) := lowerImage_made e
      refine (hmade.mono_bad fun _ _ => True.intro).bind fun node hnode => ends_pure_shows ?_
      rw [hnode]
      rfl
  | video => exact ends_pure_shows rfl
  | list =>
      have hitems : (Traced.each (lower (indent + 1)) e.children).Ends
          (List.Forall₂ (fun _ _ => True) e.children) (fun _ => True) :=
        Traced.Ends.each _ _ fun _ _ => Traced.Ends.any _
      refine hitems.bind fun items hitems => ends_pure_shows ?_
      -- There is an item for each child.
      generalize e.children = children at hitems
      cases hitems <;> rfl
  | lineBreak => exact ends_pure_shows rfl
  | table => exact (lowerTable_shows indent e).bind fun node hnode => ends_pure_shows hnode
  | head => exact (Traced.Ends.any _).bind fun m _ => ends_pure_shows rfl
  | dropped => exact Traced.Ends.pure rfl
  | emphasis style => exact hsaid (.emphasis style) fun _ => rfl
  | code => exact Traced.Ends.pure (showsAny_lowerCode e)
  | quote => exact (hlow indent).bind fun nodes _ => ends_pure_shows rfl
  | semantic element => exact (hlow indent).bind fun nodes hnodes => ends_pure_shows hnodes
  | unhandled =>
      simp only [hhook]
      exact hlow (indent + 1)

/-- So does a child. -/
theorem lowerChild_tells (ho : o.WithoutElementHooks)
    (hlow : ∀ indent e, (lower indent e).Ends (fun nodes => showsAny nodes = below e)
      (fun _ => True)) (indent : Int) (parent : Dom.Element) (child : Dom.Node) :
    (lowerChild o lower indent parent child).Ends
      (fun nodes => showsAny nodes = tellsChild o below parent child) (fun _ => True) := by
  unfold lowerChild
  rw [ho.1]
  cases child with
  | text content => exact lowerText_tells content
  | special => exact Traced.Ends.pure rfl
  | element tag nodes => exact lowerElement_tells ho.2 indent _ fun indent => hlow indent _

/-- What is told of an element is what shows of the nodes that it is lowered to. -/
theorem lowerLevels_tells (ho : o.WithoutElementHooks) (levels : Nat) (indent : Int)
    (e : Dom.Element) :
    (lowerLevels o levels indent e).Ends (fun nodes => showsAny nodes = tells o levels e)
      (fun _ => True) := by
  induction levels generalizing indent e with
  | zero =>
      have hflat : (flatten o e).Ends (· = flattened e) (LoweringFault o []) := flatten_made e
      refine (hflat.mono_bad fun _ _ => True.intro).mono fun nodes hnodes => ?_
      rw [hnodes]
      exact showsAny_flattened e
  | succ levels ih =>
      unfold lowerLevels tells
      refine Traced.Ends.collect
        (fun children nodes => showsAny nodes = children.any (tellsChild o (tells o levels) e))
        _ e.nodes rfl (fun child rest nodes others hfirst hothers => ?_) fun child _ => ?_
      · rw [List.any_cons, List.any_nil, Bool.or_false] at hfirst
        rw [Markdown.showsAny_append, hfirst, hothers, List.any_cons]
      · refine (lowerChild_tells ho ih indent e child).mono fun nodes hnodes => ?_
        rw [hnodes, List.any_cons, List.any_nil, Bool.or_false]

end

section

variable {o : Options}

/-- Something is seen of one of the nodes if something is seen of their text. -/
theorem exists_visible {nodes : List Dom.Node} (h : visible (Dom.textOf nodes) ≠ []) :
    ∃ node ∈ nodes, visible node.ownText ≠ [] := by
  induction nodes with
  | nil => exact absurd rfl h
  | cons node nodes ih =>
      rw [Dom.textOf_cons, Text.visible_append] at h
      by_cases hnode : visible node.ownText = []
      · rw [hnode, List.nil_append] at h
        rcases ih h with ⟨other, hmem, hother⟩
        exact ⟨other, List.mem_cons_of_mem node hmem, hother⟩
      · exact ⟨node, List.mem_cons_self, hnode⟩

/-- On a tidy page a child with visible text is lowered to something that shows. -/
theorem tellsByRule_of_tidy (hwanted : o.metadata.wanted = false) {around : List String}
    {e c : Dom.Element} (h : e.Tidy around) (hc : c ∈ e.children)
    (hshows : visible (Dom.textOf c.nodes) ≠ []) {below : Dom.Element → Bool}
    (hbelow : below c = true) : tellsByRule o below c = true := by
  have hmem := Dom.Element.mem_descendants_of_mem_children hc
  have htidy := h.child hc
  have hfits := fitsName_categoryOf c.name (h.folded c hmem) (h.named c hmem)
  have hsaid : (!Text.isAllBlank c.text) = true := by
    rw [htidy.text_eq_textOf (h.named c hmem), Bool.not_eq_true', ← Text.visible_ne_nil_iff]
    exact hshows
  have hchildless : c.name = "img" ∨ c.name = "br" → False := by
    intro hname
    rw [h.childless c hmem hname] at hshows
    exact hshows rfl
  unfold tellsByRule
  rw [hwanted]
  -- Some rules tell by the text of the element, others by what is below, and others whatever is
  -- there. The rest are for elements that show nothing in a tidy page.
  cases hcategory : Dom.categoryOf false c.name with
  | heading | emphasis | code => exact hsaid
  | paragraph | semantic | unhandled => exact hbelow
  | link | quote | video => rfl
  | head | dropped =>
      rw [hcategory] at hfits
      exact absurd hfits Bool.false_ne_true
  | image =>
      rw [hcategory] at hfits
      exact (hchildless (Or.inl (beq_iff_eq.mp hfits))).elim
  | lineBreak =>
      rw [hcategory] at hfits
      exact (hchildless (Or.inr (beq_iff_eq.mp hfits))).elim
  | list =>
      -- All that shows in a list is in its items, so there is one.
      rw [hcategory, fitsName, Bool.or_eq_true, beq_iff_eq, beq_iff_eq] at hfits
      rw [h.visible_list hc hfits] at hshows
      cases hchildren : c.children with
      | nil =>
          rw [hchildren] at hshows
          exact absurd rfl hshows
      | cons => rfl
  | table =>
      rw [hcategory] at hfits
      rw [beq_iff_eq.mp hfits] at htidy
      -- All that shows in a table is in its cells, so there is a column.
      rw [htidy.visible_table] at hshows
      rcases List.exists_mem_of_ne_nil _ hshows with ⟨x, hx⟩
      rcases List.mem_flatMap.mp hx with ⟨row, hrow, hx⟩
      rcases List.mem_flatMap.mp hx with ⟨cell, hcell, _⟩
      have hpos := columnsOf_pos (List.ne_nil_of_mem hcell)
      have hle := (tableColumns_le_iff c (tableColumns c)).mp (Nat.le_refl _) row hrow
      rw [bne_iff_ne]
      change 0 < columnsOf (cellElements row) at hpos
      omega

/-- On a tidy page an element tells something if there is visible text below it. -/
theorem tells_of_tidy (hwanted : o.metadata.wanted = false) (levels : Nat)
    {around : List String} {e : Dom.Element} (h : e.Tidy around) (hname : e.name ∉ Dom.untidyNames)
    (hshows : visible (Dom.textOf e.nodes) ≠ []) : tells o levels e = true := by
  induction levels generalizing around e with
  | zero =>
      rw [tells, h.text_eq_textOf hname, Bool.not_eq_true', ← Text.visible_ne_nil_iff]
      exact hshows
  | succ levels ih =>
      -- One of the nodes shows, and the child it leads to tells.
      rcases exists_visible hshows with ⟨node, hnode, hshown⟩
      rw [tells, List.any_eq_true]
      refine ⟨node, hnode, ?_⟩
      cases node with
      | text content =>
          rw [tellsChild, Bool.not_eq_true', ← Text.visible_ne_nil_iff]
          exact hshown
      | special => exact absurd rfl hshown
      | element tag nodes =>
          have hc : ⟨e.name, e.innerRole, tag, nodes⟩ ∈ e.children :=
            (Dom.Element.mem_children_iff e _).mpr ⟨hnode, rfl, rfl⟩
          have hmem := Dom.Element.mem_descendants_of_mem_children hc
          exact tellsByRule_of_tidy hwanted h hc hshown
            (ih (h.child hc) (h.named _ hmem) hshown)

end

end PageDistill
