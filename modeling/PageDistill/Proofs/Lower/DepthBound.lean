import PageDistill.Proofs.Lower.Rules
import PageDistill.Proofs.Markdown.Height

/-!
# The Depth Limit Bounds the Work

However deep a page is nested, the tree it is lowered to is not much higher than the limit.

Lowering goes down one level with every call, and where no level is left it writes text and
stops. So it is one step, `loweringStep`, repeated once for each level on top of `flatten`, and
the limit alone says how many levels there are. This is not yet a bound on the tree, since a rule
may put more than one node on top of what it is given: a link whose contents are only text makes
two at once. But that rule asks for nothing below it. `Made.height_le` says that every rule makes
trees at most one higher than what it was given, or two high, and by induction on the levels the
tree has one level more than lowering.

A rendering recurses into the tree and nowhere else, so its depth is bounded by the limit too.

## Main definitions

* `loweringStep`: One level of lowering.

## Theorems

* `lowerLevels_eq_iterate`: Lowering is one step, repeated for each level.
* `Made.height_le`: A rule makes trees one higher than it is given.
* `lowerLevels_height_le`: The tree has one level more than lowering.
* `lower_height_le`: The tree, and both recursions, are bounded by the limit alone.
-/

namespace PageDistill

open Markdown (Node Cell)

/-- The nodes for the children of an element, when the level below is given. -/
def loweringStep (o : Options) (lower : Descent) : Descent := fun indent e =>
  Traced.collect (lowerChild o lower indent e) e.nodes

/-- Lowering is one step, repeated for each level, on top of the flattening. -/
theorem lowerLevels_eq_iterate (o : Options) (levels : Nat) :
    lowerLevels o levels = (loweringStep o)^[levels] fun _ e => flatten o e := by
  induction levels with
  | zero => rfl
  | succ levels ih =>
      rw [Function.iterate_succ_apply', ← ih]
      rfl

section

variable {o : Options} {made : Dom.Element → List Node → Prop} {n : Nat}
  (hmade : ∀ e nodes, made e nodes → ∀ node ∈ nodes, node.height ≤ n)

include hmade

theorem tableOf_height_le {e : Dom.Element} {rows : List (List Cell)}
    (h : MadeRows o made e rows) : (tableOf o e rows).height ≤ n + 1 := by
  rcases tableOf_forall_cell (fun cell => ∀ node ∈ cell.content, node.height ≤ n) h
    (List.forall_mem_nil _) (fun _ _ _ _ _ => List.forall_mem_nil _)
    fun d _ content hcontent _ => hmade d content hcontent with ⟨all, colIds, htable, hall⟩
  rw [htable, Node.height_eq, Nat.add_le_add_iff_right, Markdown.heightOf_le_iff]
  intro child hchild
  rcases List.mem_flatMap.mp hchild with ⟨cell, hcell, hchild⟩
  rcases List.mem_flatten.mp hcell with ⟨row, hrow, hcell⟩
  exact hall row hrow cell hcell child hchild

/-- A rule makes trees that are one higher than those it is given, or two high. -/
theorem Made.height_le {e : Dom.Element} {nodes : List Node} (h : Made o made e nodes) :
    ∀ node ∈ nodes, node.height ≤ max (n + 1) 2 := by
  have hnone : ∀ node ∈ ([] : List Node), node.height ≤ max (n + 1) 2 :=
    fun _ hnode => absurd hnode List.not_mem_nil
  have hgiven : ∀ nodes, made e nodes → ∀ node ∈ nodes, node.height ≤ max (n + 1) 2 :=
    fun nodes h node hnode => Nat.le_trans (hmade e nodes h node hnode) (by omega)
  have hone : ∀ only : Node, only.height ≤ max (n + 1) 2 →
      ∀ node ∈ [only], node.height ≤ max (n + 1) 2 :=
    fun _ honly => List.forall_mem_singleton.mpr honly
  -- A rule that puts one node around what it is given.
  have hwrap : ∀ only : Node, (∀ child ∈ only.children, child.height ≤ n) →
      ∀ node ∈ [only], node.height ≤ max (n + 1) 2 := by
    intro only hbelow
    refine hone only ?_
    rw [← Markdown.heightOf_le_iff] at hbelow
    rw [Node.height_eq]
    omega
  have hleaf : ∀ only : Node, only.children = [] →
      ∀ node ∈ [only], node.height ≤ max (n + 1) 2 := by
    intro only hchildren
    refine hwrap only ?_
    rw [hchildren]
    exact fun _ hchild => absurd hchild List.not_mem_nil
  cases h with
  | blank | dropped => exact hnone
  | paragraph _ h =>
      exact List.forall_mem_append.mpr ⟨hgiven _ h, hleaf _ rfl⟩
  | label => exact hone _ (Nat.le_max_right _ _)
  | image | video | lineBreak | head => exact hleaf _ rfl
  | list _ h =>
      refine hwrap _ fun child hchild => ?_
      rcases List.mem_flatten.mp hchild with ⟨item, hitem, hchild⟩
      rcases Traced.exists_of_mem_right h hitem with ⟨element, _, hitem⟩
      exact hmade element item hitem child hchild
  | table _ h => exact hone _ (Nat.le_trans (tableOf_height_le hmade h) (Nat.le_max_left _ _))
  | code =>
      rcases lowerCode_cases e with hcode | ⟨_, _, _, hcode⟩
      · rw [hcode]
        exact hnone
      · rw [hcode]
        exact hleaf _ rfl
  | heading _ _ _ h | link _ h | emphasis _ _ _ h | quote _ h | semantic _ _ h =>
      exact hwrap _ (hmade e _ h)
  | passed _ h => exact hgiven _ h

end

/-- A text, or nothing where there is no text. -/
theorem height_le_one {nodes : List Node} {filled : Prop} {text : String}
    (h : nodes = [] ∨ filled ∧ nodes = [.text text]) : ∀ node ∈ nodes, node.height ≤ 1 := by
  rcases h with rfl | ⟨_, rfl⟩
  · exact fun _ hnode => absurd hnode List.not_mem_nil
  · exact List.forall_mem_singleton.mpr (Nat.le_refl 1)

/-- Without hooks, the trees that are made with some levels have one level more, or lowering fails
    in one of its ways. -/
theorem lowerLevels_height_le {o : Options} (ho : o.WithoutElementHooks) (levels : Nat)
    (indent : Int) (e : Dom.Element) :
    (lowerLevels o levels indent e).Ends (fun nodes => ∀ node ∈ nodes, node.height ≤ levels + 1)
      (LoweringFault o e.descendants) := by
  refine lowerLevels_made (fun levels _ nodes => ∀ node ∈ nodes, node.height ≤ levels + 1) ho
    (fun d => height_le_one (flattened_cases d)) (fun levels d parts hparts node hnode => ?_)
    levels indent e
  rcases List.mem_flatten.mp hnode with ⟨part, hpart, hnode⟩
  rcases Traced.exists_of_mem_right hparts hpart with ⟨child, _, hchild⟩
  cases hchild with
  | text content =>
      exact Nat.le_trans (height_le_one (textNodes_cases content) node hnode) (by omega)
  | special => exact absurd hnode List.not_mem_nil
  | element tag children h =>
      exact Nat.le_trans (h.height_le (fun _ _ h => h) node hnode) (by omega)

/-- A whole limit leaves one level more than it says, whatever the element. -/
theorem levelsWithin_of_deepest {limit : DepthLimit} {depth : Nat}
    (h : limit.deepest? = some (depth : Int)) (e : Dom.Element) :
    levelsWithin limit e = depth + 1 := by
  unfold levelsWithin
  rw [h]
  exact Int.toNat_natCast (depth + 1)

/-- Lowering with a limit `n`, and without hooks, is `n + 1` levels deep, and makes trees of
    height `n + 2` at most, or fails in one of its ways. A rendering of such a tree recurses
    `n + 3` deep at most; what would be rendered deeper has no part in it. How deep the page is
    nested does not matter. -/
theorem lower_height_le (o : Options) (helement : o.WithoutElementHooks)
    (hnode : o.WithoutNodeHooks) (limit : Nat) (hlimit : o.maxDepth.deepest? = some (limit : Int))
    (indent : Int) (e : Dom.Element) :
    lower o indent e = (loweringStep o)^[limit + 1] (fun _ d => flatten o d) indent e ∧
      ((∃ nodes, (lower o indent e).result = .ok nodes ∧
          (∀ node ∈ Markdown.walk nodes, node.height ≤ limit + 2) ∧
          ∀ deeper start, Markdown.renderContent o start nodes =
            .ok (Markdown.renderingStep^[limit + 3] deeper start nodes)) ∨
        ∃ fault, (lower o indent e).result = .error fault ∧
          LoweringFault o e.descendants fault) := by
  have hlevels := levelsWithin_of_deepest hlimit e
  have hordered : ∀ kind, o.maxDepth ≠ .unordered kind := by
    intro kind hkind
    rw [hkind] at hlimit
    exact absurd hlimit nofun
  have hlower := lower_of_ordered hordered indent e
  refine ⟨?_, ?_⟩
  -- The limit alone says how often the step is taken.
  · rw [hlower, hlevels, lowerLevels_eq_iterate]
  · have hends := lowerLevels_height_le helement (levelsWithin o.maxDepth e) indent e
    rw [← hlower, hlevels] at hends
    rcases hends.cases with ⟨nodes, hnodes, hheight⟩ | hfault
    · refine Or.inl ⟨nodes, hnodes, Markdown.height_le_of_mem_walk hheight,
        fun deeper start => ?_⟩
      -- Rendering a tree of this height takes no more turns than it has levels.
      have hlt := Nat.lt_succ_of_le ((Markdown.heightOf_le_iff nodes _).mpr hheight)
      rw [Markdown.renderContent, Markdown.renderNodes_unhooked hnode,
        Markdown.layOut_eq_iterate deeper _ start nodes hlt]
    · exact Or.inr hfault

/-- A limit of one. Below strong text stand a link, whose label makes the tree as high as it can be,
    and a list with elements that stand too deep. With these options nothing can fail. -/
theorem lower_height_le_label :
    let plain (name : String) (nodes : List Dom.Node) : Dom.Node := .element ⟨name, []⟩ nodes
    let e : Dom.Element := ⟨"[document]", .ordinary, ⟨"body", []⟩,
      [plain "b" [plain "a" [.text "One"],
        plain "ul" [plain "li" [plain "div" [plain "i" [.text "two"]]]]]]⟩
    let o : Options := { Options.default with maxDepth := .whole 1 }
    o.WithoutElementHooks ∧ o.WithoutNodeHooks ∧ o.maxDepth.deepest? = some 1 ∧
      lower o 0 e = (loweringStep o)^[2] (fun _ d => flatten o d) 0 e ∧
      ∃ nodes, (lower o 0 e).result = .ok nodes ∧
        (∀ node ∈ Markdown.walk nodes, node.height ≤ 3) ∧
        ∀ deeper start, Markdown.renderContent o start nodes =
          .ok (Markdown.renderingStep^[4] deeper start nodes) := by
  intro plain e o
  have helement : o.WithoutElementHooks := ⟨rfl, rfl⟩
  have hnode : o.WithoutNodeHooks := ⟨rfl, rfl⟩
  rcases lower_height_le o helement hnode 1 rfl 0 e with ⟨hstep, hok | ⟨fault, _, hfault⟩⟩
  · exact ⟨helement, hnode, rfl, hstep, hok⟩
  · exact (hfault.false_of_plain rfl nofun rfl rfl).elim

example :
    let plain (name : String) (nodes : List Dom.Node) : Dom.Node := .element ⟨name, []⟩ nodes
    let e : Dom.Element := ⟨"[document]", .ordinary, ⟨"body", []⟩,
      [plain "b" [plain "a" [.text "One"],
        plain "ul" [plain "li" [plain "div" [plain "i" [.text "two"]]]]]]⟩
    (lower { Options.default with maxDepth := .whole 1 } 0 e).result.toOption.map
      Markdown.heightOf = some 3 := by
  decide

end PageDistill
