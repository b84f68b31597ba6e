import PageDistill.Proofs.Lower.Told

/-!
# Headings and Emphasis With Something in Them

What is between the marks of a heading or an emphasis.

Whether an element becomes a heading or an emphasis is decided by what it says, and what is put
into the node is what its children are lowered to. An element may say something and have no
contents, and its marks then stand around nothing (`lower_empty_emphasis`).

Every heading and emphasis of a tree has its `Origin`: an element of the page that says something,
and that its contents come from. The induction is on the levels, as the recursion is, and it needs
of the rules only that they put no other heading or emphasis in (`Made.forall_walk`). What shows of
the contents can then be told from that element: they are blank exactly if it tells nothing, and on
a tidy page none are (`lower_marked`).

## Main definitions

* `Node.isMarked`: Headings and emphasis.
* `MarkedFrom`: Such a node for an element.
* `Origin`, `Traceable`: Where such a node and its contents come from.

## Theorems

* `Made.forall_walk`: What holds of all nodes of a tree.
* `MadeChild.origin`, `lowerLevels_origin`: Every heading and emphasis has its origin.
* `lower_marked`: When the contents of a heading or an emphasis are blank.
* `lower_empty_emphasis`: An emphasis of a text that is left out.
-/

namespace PageDistill

open Markdown (Node Cell walk renderContent)
open Text (visible)

namespace Markdown

/-- Headings and emphasis, whose contents are written beside a mark or between two. -/
def Node.isMarked : Node → Bool
  | .heading .. => true
  | .emphasis .. => true
  | _ => false

end Markdown

/-- A heading or an emphasis for an element that says something. -/
inductive MarkedFrom (o : Options) (e : Dom.Element) : Node → Prop where
  | heading (level : Nat) (content : List Node)
      (hcategory : Dom.categoryOf o.metadata.wanted e.name = .heading level)
      (hwords : Text.isAllBlank e.text = false) : MarkedFrom o e (.heading level content)
  | emphasis (style : Markdown.Emphasis) (content : List Node)
      (hcategory : Dom.categoryOf o.metadata.wanted e.name = .emphasis style)
      (hwords : Text.isAllBlank e.text = false) : MarkedFrom o e (.emphasis style content)

/-- A node that is a heading or an emphasis is made of one of some elements, and its contents are
    what the element is lowered to, with less than some levels left. -/
def Origin (o : Options) (levels : Nat) (elements : List Dom.Element) (node : Node) : Prop :=
  node.isMarked = true → ∃ d ∈ elements, MarkedFrom o d node ∧
    ∃ left < levels, ∃ indent, (lowerLevels o left indent d).result = .ok node.children

/-- Nodes that an element is lowered to with some levels left, of which each has an origin. -/
def Traceable (o : Options) (levels : Nat) (e : Dom.Element) (nodes : List Node) : Prop :=
  (∀ node ∈ walk nodes, Origin o levels e.descendants node) ∧
    ∃ indent, (lowerLevels o levels indent e).result = .ok nodes

theorem MarkedFrom.words {o : Options} {e : Dom.Element} {node : Node} (h : MarkedFrom o e node) :
    Text.isAllBlank e.text = false := by
  cases h <;> assumption

section

variable {o : Options} {made : Dom.Element → List Node → Prop} {p : Node → Prop}

variable (hplain : ∀ node : Node, node.isMarked = false → p node)

include hplain

theorem tableOf_forall_walk {e : Dom.Element} {rows : List (List Cell)}
    (h : MadeRows o made e rows)
    (hmade : ∀ d ∈ e.descendants, ∀ nodes, made d nodes → ∀ node ∈ walk nodes, p node) :
    ∀ node ∈ walk [tableOf o e rows], p node := by
  rcases tableOf_forall_cell (fun cell => ∀ node ∈ walk cell.content, p node) h
    (List.forall_mem_nil _) (fun _ _ _ _ _ => List.forall_mem_nil _)
    fun d hd content hcontent _ => hmade d hd content hcontent with ⟨all, colIds, htable, hall⟩
  rw [htable]
  refine Markdown.forall_walk_singleton (hplain _ rfl) ?_
  rw [Node.children, List.flatMap_def]
  refine Markdown.forall_walk_flatten fun content hcontent => ?_
  rcases List.mem_map.mp hcontent with ⟨cell, hcell, rfl⟩
  rcases List.mem_flatten.mp hcell with ⟨row, hrow, hcell⟩
  exact hall row hrow cell hcell

/-- What holds of all nodes without marks, and of all nodes in the parts that a rule is given,
    holds of everything that the rule makes, if it holds of the heading or the emphasis that the
    rule may make itself. -/
theorem Made.forall_walk {e : Dom.Element} {nodes : List Node} (h : Made o made e nodes)
    (hown : ∀ node, MarkedFrom o e node → made e node.children → p node)
    (hmade : ∀ d ∈ e :: e.descendants, ∀ nodes, made d nodes → ∀ node ∈ walk nodes, p node) :
    ∀ node ∈ walk nodes, p node := by
  rcases List.forall_mem_cons.mp hmade with ⟨hself, hbelow⟩
  have hnone : ∀ node ∈ walk [], p node := List.forall_mem_nil _
  -- Most rules wrap what is below in a node without marks.
  have hwrap : ∀ node : Node, node.isMarked = false → (∀ d ∈ walk node.children, p d) →
      ∀ d ∈ walk [node], p d :=
    fun node hnode => Markdown.forall_walk_singleton (hplain node hnode)
  cases h with
  | blank | dropped => exact hnone
  | heading level hcategory hwords h =>
      exact Markdown.forall_walk_singleton (hown _ (.heading level _ hcategory hwords) h)
        (hself _ h)
  | emphasis style hcategory hwords h =>
      exact Markdown.forall_walk_singleton (hown _ (.emphasis style _ hcategory hwords) h)
        (hself _ h)
  | paragraph _ h =>
      rw [Markdown.walk_append]
      exact List.forall_mem_append.mpr ⟨hself _ h, hwrap _ rfl hnone⟩
  | label => exact hwrap _ rfl (hwrap _ rfl hnone)
  | link _ h | quote _ h | semantic _ _ h => exact hwrap _ rfl (hself _ h)
  | image | video | lineBreak | head => exact hwrap _ rfl hnone
  | list _ h =>
      refine hwrap _ rfl (Markdown.forall_walk_flatten fun item hitem => ?_)
      rcases Traced.exists_of_mem_right h hitem with ⟨c, hc, hlowered⟩
      exact hbelow c (Dom.Element.mem_descendants_of_mem_children hc) item hlowered
  | table _ h => exact tableOf_forall_walk hplain h hbelow
  | code =>
      rcases lowerCode_cases e with hcode | ⟨_, _, _, hcode⟩
      · rw [hcode]
        exact hnone
      · rw [hcode]
        exact hwrap _ rfl hnone
  | passed _ h => exact hself _ h

end

section

variable {o : Options}

theorem Origin.mono {levels more : Nat} {elements others : List Dom.Element} {node : Node}
    (h : Origin o levels elements node) (hlevels : levels ≤ more) (hsub : elements ⊆ others) :
    Origin o more others node := by
  intro hmarked
  rcases h hmarked with ⟨d, hd, hfrom, left, hleft, hresult⟩
  exact ⟨d, hsub hd, hfrom, left, Nat.lt_of_lt_of_le hleft hlevels, hresult⟩

/-- What a child is lowered to has an origin below its parent, one level further up. -/
theorem MadeChild.origin {levels : Nat} {e : Dom.Element} {child : Dom.Node} {nodes : List Node}
    (hchild : child ∈ e.nodes)
    (h : MadeChild o (Traceable o levels) e child nodes) :
    ∀ node ∈ walk nodes, Origin o (levels + 1) e.descendants node := by
  -- A node without a mark needs no origin.
  have hplain : ∀ node : Node, node.isMarked = false →
      Origin o (levels + 1) e.descendants node := by
    intro node hnode hmarked
    rw [hnode] at hmarked
    exact absurd hmarked Bool.false_ne_true
  have hsub := Dom.Element.elements_subset_of_mem_nodes hchild
  cases h with
  | text content =>
      rcases textNodes_cases content with hempty | ⟨_, hone⟩
      · rw [hempty]
        exact List.forall_mem_nil _
      · rw [hone]
        exact Markdown.forall_walk_singleton (hplain _ rfl) (List.forall_mem_nil _)
  | special => exact List.forall_mem_nil _
  | element tag children h =>
      -- The node is made by the child itself, or by an element below with fewer levels.
      refine h.forall_walk hplain (fun node hfrom hmade _ => ?_)
        fun d hd nodes hmade node hnode => ?_
      · exact ⟨_, hsub List.mem_cons_self, hfrom, levels, Nat.lt_succ_self levels, hmade.2⟩
      · exact (hmade.1 node hnode).mono (Nat.le_succ levels)
          (Dom.Element.descendants_subset e d (hsub hd))

/-- Every heading and emphasis of a tree has an origin, with fewer levels left than the whole. -/
theorem lowerLevels_origin (ho : o.WithoutElementHooks) (levels : Nat) (indent : Int)
    (e : Dom.Element) :
    (lowerLevels o levels indent e).Ends
      (fun nodes => ∀ node ∈ walk nodes, Origin o levels e.descendants node)
      (LoweringFault o e.descendants) := by
  induction levels generalizing indent e with
  | zero =>
      refine (flatten_made e).mono fun nodes hnodes => ?_
      rcases flattened_cases e with hempty | ⟨_, hone⟩
      · rw [hnodes, hempty]
        exact List.forall_mem_nil _
      · rw [hnodes, hone]
        exact Markdown.forall_walk_singleton nofun (List.forall_mem_nil _)
  | succ levels ih =>
      -- The exact run is kept beside the nodes, since an origin names it.
      have hlevels : ∀ indent d, (lowerLevels o levels indent d).Ends (Traceable o levels d)
          (LoweringFault o d.descendants) := fun indent d =>
        (ih indent d).and_result.mono fun _ h => ⟨h.1, indent, h.2⟩
      unfold lowerLevels
      refine Traced.Ends.collect
        (fun _ nodes => ∀ node ∈ walk nodes, Origin o (levels + 1) e.descendants node) _ e.nodes
        (List.forall_mem_nil _) (fun _ _ _ _ hfirst hothers => ?_)
        fun child hchild => ?_
      · rw [Markdown.walk_append]
        exact List.forall_mem_append.mpr ⟨hfirst, hothers⟩
      · exact (lowerChild_levels_made (Traceable o) ho hlevels indent e child hchild).mono
          fun nodes h => h.origin hchild

end

/-- Without hooks a heading or an emphasis of the tree is made of an element that says something,
    and its contents are what that element is lowered to. They are written as a text that is not
    blank exactly if the element tells something with the levels that are left for it. On a tidy
    page each of them does. -/
theorem lower_marked (o : Options) (helement : o.WithoutElementHooks) (hnode : o.WithoutNodeHooks)
    (indent : Int) (e : Dom.Element) :
    (∃ nodes, (lower o indent e).result = .ok nodes ∧
        (∀ node ∈ walk nodes, node.isMarked = true →
          ∃ d ∈ e.descendants, MarkedFrom o d node ∧ ∃ left < levelsWithin o.maxDepth e,
            (∃ deeper, (lowerLevels o left deeper d).result = .ok node.children) ∧
            ∀ start, ∃ s, renderContent o start node.children = .ok s ∧
              (Text.isAllBlank s = false ↔ tells o left d = true)) ∧
        (o.metadata.wanted = false → e.Tidy [] → ∀ node ∈ walk nodes, node.isMarked = true →
          ∀ start, ∃ s, renderContent o start node.children = .ok s ∧
            Text.isAllBlank s = false)) ∨
      ∃ fault, (lower o indent e).result = .error fault ∧ LoweringFault o e.descendants fault := by
  have hends : (lower o indent e).Ends
      (fun nodes => ∀ node ∈ walk nodes, Origin o (levelsWithin o.maxDepth e) e.descendants node)
      (LoweringFault o e.descendants) :=
    lower_ends (lowerLevels_origin helement _ indent e)
  rcases hends.cases with ⟨nodes, hresult, horigin⟩ | hfault
  · -- What is written of contents, and what the element that they come from tells.
    have hblank : ∀ (node : Node) (d : Dom.Element) (left : Nat) (deeper : Int),
        (lowerLevels o left deeper d).result = .ok node.children → ∀ start,
        ∃ s, renderContent o start node.children = .ok s ∧
          (Text.isAllBlank s = false ↔ tells o left d = true) := by
      intro node d left deeper hlowered start
      rw [← (lowerLevels_tells helement left deeper d).of_ok hlowered]
      exact Markdown.renderContent_blank_iff hnode start node.children
    refine Or.inl ⟨nodes, hresult, fun node hmem hmarked => ?_,
      fun hwanted htidy node hmem hmarked start => ?_⟩
    · rcases horigin node hmem hmarked with ⟨d, hd, hfrom, left, hleft, deeper, hlowered⟩
      exact ⟨d, hd, hfrom, left, hleft, ⟨deeper, hlowered⟩, hblank node d left deeper hlowered⟩
    · rcases horigin node hmem hmarked with ⟨d, hd, hfrom, left, _, deeper, hlowered⟩
      rcases htidy.descendant hd with ⟨between, hbelow⟩
      have hname := htidy.named d hd
      have hshows : visible (Dom.textOf d.nodes) ≠ [] := by
        rw [← hbelow.text_eq_textOf hname, Text.visible_ne_nil_iff]
        exact hfrom.words
      rcases hblank node d left deeper hlowered start with ⟨s, hs, hiff⟩
      exact ⟨s, hs, hiff.mpr (tells_of_tidy hwanted left hbelow hname hshows)⟩
  · exact Or.inr hfault

/-- A heading with emphasis in a link, a quote and a table in bold text, and a list in italics that
    stands too deep. With these options nothing can fail. -/
theorem lower_marked_nested :
    let plain (name : String) (nodes : List Dom.Node) : Dom.Node := .element ⟨name, []⟩ nodes
    let e : Dom.Element := ⟨"body", .ordinary, ⟨"div", []⟩,
      [plain "h2" [plain "a" [plain "em" [.text "One"], .special .comment "no text"]],
        plain "b" [plain "blockquote" [], plain "table" [plain "tr" [plain "td" [.text "two"]]]],
        plain "div" [plain "div" [plain "i" [plain "ul" [plain "li" [.text "three"]]]]],
        plain "s" [.text " "]]⟩
    let o : Options := { Options.default with maxDepth := .whole 3 }
    o.WithoutElementHooks ∧ o.WithoutNodeHooks ∧ e.Tidy [] ∧
      ∃ nodes, (lower o 0 e).result = .ok nodes ∧
        ∀ node ∈ walk nodes, node.isMarked = true →
          ∀ start, ∃ s, renderContent o start node.children = .ok s ∧
            Text.isAllBlank s = false := by
  intro plain e o
  have helement : o.WithoutElementHooks := ⟨rfl, rfl⟩
  have hnode : o.WithoutNodeHooks := ⟨rfl, rfl⟩
  have htidy : e.Tidy [] := by decide +kernel
  refine ⟨helement, hnode, htidy, ?_⟩
  rcases lower_marked o helement hnode 0 e with ⟨nodes, hresult, _, hall⟩ | ⟨_, _, hfault⟩
  · exact ⟨nodes, hresult, hall rfl htidy⟩
  · exact (hfault.false_of_plain rfl nofun rfl rfl).elim

/-- An emphasis of nothing: what the element says is in a child that is left out. -/
theorem lower_empty_emphasis :
    let e : Dom.Element := ⟨"[document]", .ordinary, ⟨"div", []⟩,
      [.element ⟨"b", []⟩ [.element ⟨"noscript", []⟩ [.text "x"]]]⟩
    let o : Options := Options.default
    o.WithoutElementHooks ∧ o.WithoutNodeHooks ∧
      (lower o 0 e).result = .ok [.emphasis .bold []] ∧
      renderContent o 0 [.emphasis .bold []] = .ok "****".toList ∧
      ¬ ∀ node ∈ walk [.emphasis .bold []], node.isMarked = true →
        ∃ s, renderContent o 0 node.children = .ok s ∧ Text.isAllBlank s = false :=
  ⟨⟨rfl, rfl⟩, ⟨rfl, rfl⟩, rfl, rfl, fun h => by
    rcases h (.emphasis .bold []) List.mem_cons_self rfl with ⟨s, hs, hblank⟩
    rw [← Except.ok.inj hs] at hblank
    exact absurd hblank (by decide)⟩

end PageDistill
