import PageDistill.Proofs.Lower.Rules
import PageDistill.Proofs.Markdown.Attachment

/-!
# Where Metadata Comes From

The metadata that a lowered tree holds.

Only the rule for a head puts metadata into a tree, and only when it is wanted. So an element
without a head below it (`Headless`) is lowered to a tree without metadata, with any options that
have no hooks on elements: every other rule passes the trees of its parts on as they are.

## Main definitions

* `Options.Headless`: An element in which no head would be met.

## Theorems

* `lowerElement_head`: A head becomes its metadata.
* `Made.metadataFree`: What a rule makes has metadata only if its parts have.
* `lowerLevels_metadataFree`: Without a head below there is no metadata.
* `lowerChild_metadataFree`: So it is for a node.
-/

namespace PageDistill

open Markdown (Node Cell metadataIn)

/-- An element in which no head would be met: there is none below it, if metadata is wanted. -/
def Options.Headless (o : Options) (e : Dom.Element) : Prop :=
  o.metadata.wanted = true → ∀ d ∈ e.descendants, Text.foldName d.name ≠ "head"

section

variable {o : Options} {e : Dom.Element}

theorem Options.Headless.descendant (h : o.Headless e) {d : Dom.Element} (hd : d ∈ e.descendants) :
    o.Headless d := fun hwanted x hx => h hwanted x (Dom.Element.descendants_subset e d hd hx)

/-- A head is lowered to its metadata, when metadata is wanted. -/
theorem lowerElement_head {lower : Descent} (indent : Int) (hwanted : o.metadata.wanted = true)
    (hname : e.name = "head") :
    (lowerElement o lower indent e).result =
      (extractMetadata o.metadata.isExtended e).result.map fun m => [.metadata m] := by
  have hcategory : Dom.categoryOf true "head" = .head := by decide
  unfold lowerElement
  rw [Traced.result_debugIf_bind, hwanted, hname, hcategory]
  simp only [Traced.result_bind]
  cases (extractMetadata o.metadata.isExtended e).result <;> rfl

section

variable {made : Dom.Element → List Node → Prop}
  (hmade : ∀ e nodes, made e nodes → o.Headless e → metadataIn nodes = [])

include hmade

theorem tableOf_metadataFree {rows : List (List Cell)} (hheadless : o.Headless e)
    (h : List.Forall₂ (fun row cells => MadeCells o made 0 (cellElements row) cells)
      (e.named "tr") rows) : metadataIn [tableOf o e rows] = [] := by
  rcases tableOf_forall_cell (fun cell => metadataIn cell.content = []) h rfl
    (fun _ _ _ _ _ => rfl) fun d hd content hcontent _ =>
      hmade d content hcontent (hheadless.descendant hd) with ⟨all, colIds, htable, hall⟩
  rw [htable, Markdown.metadataIn_singleton _ rfl, Node.children, List.flatMap_def]
  refine Markdown.metadataIn_flatten _ fun content hcontent => ?_
  rcases List.mem_map.mp hcontent with ⟨cell, hcell, rfl⟩
  rcases List.mem_flatten.mp hcell with ⟨row, hrow, hcell⟩
  exact hall row hrow cell hcell

/-- Every rule but that for a head passes the trees of its parts on. -/
theorem Made.metadataFree {nodes : List Node} (h : Made o made e nodes) (hheadless : o.Headless e)
    (hname : o.metadata.wanted = true → Text.foldName e.name ≠ "head") : metadataIn nodes = [] := by
  -- A node around a tree adds nothing to it.
  have hwrap : ∀ node : Node, node.metadata? = none → made e node.children →
      metadataIn [node] = [] := fun node hnone h =>
    (Markdown.metadataIn_singleton node hnone).trans (hmade e _ h hheadless)
  cases h with
  | blank | dropped | label | image | video | lineBreak => rfl
  | heading level _ _ h => exact hwrap _ rfl h
  | paragraph _ h =>
      rw [Markdown.metadataIn_append, hmade e _ h hheadless]
      rfl
  | link _ h => exact hwrap _ rfl h
  | list _ h =>
      refine (Markdown.metadataIn_singleton _ rfl).trans
        (Markdown.metadataIn_flatten _ fun item hitem => ?_)
      rcases Traced.exists_of_mem_right h hitem with ⟨child, hchild, hlowered⟩
      exact hmade child item hlowered
        (hheadless.descendant (Dom.Element.mem_descendants_of_mem_children hchild))
  | table _ h => exact tableOf_metadataFree hmade hheadless h
  | head m hcategory _ =>
      cases hwanted : o.metadata.wanted with
      | false =>
          rw [hwanted] at hcategory
          exact absurd hcategory (categoryOf_false_ne_head e.name)
      | true => exact absurd (foldName_eq_head hcategory) (hname hwanted)
  | emphasis style _ _ h => exact hwrap _ rfl h
  | code =>
      rcases lowerCode_cases e with hnone | ⟨_, _, _, hone⟩
      · rw [hnone]
        rfl
      · rw [hone]
        rfl
  | quote _ h => exact hwrap _ rfl h
  | semantic element _ h => exact hwrap _ rfl h
  | passed _ h => exact hmade e _ h hheadless

theorem MadeChild.metadataFree {child : Dom.Node} {nodes : List Node}
    (h : MadeChild o made e child nodes) (hheadless : o.metadata.wanted = true →
      ∀ d ∈ child.elements e.name e.innerRole, Text.foldName d.name ≠ "head") :
    metadataIn nodes = [] := by
  cases h with
  | text content =>
      rcases textNodes_cases content with hnone | ⟨_, hone⟩
      · rw [hnone]
        rfl
      · rw [hone]
        rfl
  | special => rfl
  | element tag children h =>
      exact h.metadataFree hmade
        (fun hwanted d hd => hheadless hwanted d (List.mem_cons_of_mem _ hd))
        fun hwanted => hheadless hwanted _ List.mem_cons_self

end

/-- What an element says that stands too deep is no metadata, even if it has a head in it. -/
theorem flattened_metadataFree (e : Dom.Element) : metadataIn (flattened e) = [] := by
  rcases flattened_cases e with hnone | ⟨_, hone⟩
  · rw [hnone]
    rfl
  · rw [hone]
    rfl

theorem flatten_metadataFree :
    (flatten o e).Ends (fun nodes => metadataIn nodes = []) fun _ => True := by
  have hflat : (flatten o e).Ends (· = flattened e) (LoweringFault o []) := flatten_made e
  refine (hflat.mono fun nodes hnodes => ?_).mono_bad fun _ _ => True.intro
  rw [hnodes]
  exact flattened_metadataFree e

variable (ho : o.WithoutElementHooks)

include ho

/-- The same with the ways to fail, as the induction on the levels gives it. -/
theorem lowerLevels_headless (levels : Nat) (indent : Int) (e : Dom.Element) :
    (lowerLevels o levels indent e).Ends (fun nodes => o.Headless e → metadataIn nodes = [])
      (LoweringFault o e.descendants) := by
  refine lowerLevels_made
    (fun _ e nodes => o.Headless e → metadataIn nodes = []) ho ?_ ?_ levels indent e
  · exact fun e _ => flattened_metadataFree e
  · intro levels e parts hparts hheadless
    refine Markdown.metadataIn_flatten parts fun part hpart => ?_
    rcases Traced.exists_of_mem_right hparts hpart with ⟨child, hchild, hmade⟩
    refine hmade.metadataFree (fun _ _ h => h) fun hwanted d hd => hheadless hwanted d ?_
    exact Dom.Element.elements_subset_of_mem_nodes hchild hd

/-- With any number of levels left, an element without a head below it is lowered to a tree
    without metadata. -/
theorem lowerLevels_metadataFree (levels : Nat) (indent : Int) (e : Dom.Element)
    (h : o.Headless e) :
    (lowerLevels o levels indent e).Ends (fun nodes => metadataIn nodes = []) fun _ => True :=
  ((lowerLevels_headless ho levels indent e).mono fun _ hnodes => hnodes h).mono_bad fun _ _ =>
    True.intro

/-- A node without a head in it is lowered to a tree without metadata. -/
theorem lowerChild_metadataFree (levels : Nat) (indent : Int) {child : Dom.Node}
    (hchild : child ∈ e.nodes) (h : o.metadata.wanted = true →
      ∀ d ∈ child.elements e.name e.innerRole, Text.foldName d.name ≠ "head") :
    (lowerChild o (lowerLevels o levels) indent e child).Ends (fun nodes => metadataIn nodes = [])
      fun _ => True := by
  have hmade := lowerChild_levels_made
    (fun _ e nodes => o.Headless e → metadataIn nodes = []) ho
    (lowerLevels_headless ho levels) indent e child hchild
  exact (hmade.mono fun _ hnodes => hnodes.metadataFree (fun _ _ h => h) h).mono_bad fun _ _ =>
    True.intro

end

end PageDistill
