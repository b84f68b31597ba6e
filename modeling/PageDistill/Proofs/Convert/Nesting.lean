import Mathlib.Data.List.MinMax
import PageDistill.Convert
import PageDistill.Proofs.Json.Height
import PageDistill.Proofs.Lower.DepthBound
import PageDistill.Proofs.Lower.EnoughLevels

/-!
# How Deep a Conversion Goes

How many calls a conversion makes one inside another, and machines with room for so many.

Two things in a page can be nested. Elements are one: lowering goes down one level with every call,
and it has as many levels as the limit leaves, or as the element has if these are fewer
(`lower_levelsTaken`). The tree that it makes is only one level higher, so whoever descends into the
tree, to shorten URLs or to write it, does not go deeper (`lower_height_le_levelsTaken`). Structured
data is the other one. No limit holds for it, and it is nested at most as deep as it has opening
brackets (`structuredData_height_le`).

So the nesting of an element is the sum of both, as far as structured data is wanted. How much room
the calls take is an affair of the machine. One that bears some nesting has room for every element
that is not nested deeper.

## Main definitions

* `levelsTaken`, `dataNesting`: How deep lowering goes, and reading structured data.
* `nesting`: The nesting of an element, as far as a conversion goes into it.
* `Machine.Bears`: A machine with room for some nesting.

## Theorems

* `lower_levelsTaken`: Lowering makes do with the levels that an element has.
* `lower_height_le_levelsTaken`: The tree is one level higher.
* `structuredData_height_le`: Structured data is not nested deeper than its brackets.
* `nesting_le`: The limit bounds the nesting, structured data apart.
-/

namespace PageDistill

open Markdown (Node)

/-- The levels that lowering an element takes: those that the limit leaves, or as many as the
    element has. -/
def levelsTaken (o : Options) (e : Dom.Element) : Nat :=
  min (levelsWithin o.maxDepth e) (Dom.heightOf e.nodes + 1)

/-- The most opening brackets in a block of structured data below an element. -/
def dataNesting (e : Dom.Element) : Nat :=
  ((e.named "script").map fun block => Json.openings (blockSource block)).foldr max 0

/-- The nesting of an element, as far as a conversion goes into it. -/
def nesting (o : Options) (e : Dom.Element) : Nat :=
  levelsTaken o e + if o.metadata.isExtended then dataNesting e else 0

/-- A machine has room for every element that is not nested deeper. -/
def Machine.Bears (machine : Machine) (depth : Nat) : Prop :=
  ∀ o e, nesting o e ≤ depth → machine.reach o e = .text

section

variable {o : Options} (ho : o.WithoutElementHooks)
  (hlimit : ∀ kind, o.maxDepth ≠ .unordered kind)

include ho hlimit

/-- Lowering makes do with the levels that an element has. -/
theorem lower_levelsTaken (indent : Int) (e : Dom.Element) :
    (lower o indent e).result = (lowerLevels o (levelsTaken o e) indent e).result := by
  rw [lower_of_ordered hlimit]
  unfold levelsTaken
  rcases Nat.le_total (levelsWithin o.maxDepth e) (Dom.heightOf e.nodes + 1) with hfew | hmany
  · rw [Nat.min_eq_left hfew]
  · rw [Nat.min_eq_right hmany]
    exact lowerLevels_wrapped ⟨ho, ho, rfl, rfl⟩ rfl _ _ indent indent e.name e e
      ⟨Dom.Wrapped.refl e.name e.nodes, rfl, rfl, rfl⟩ hmany (Nat.lt_succ_self _)

/-- The tree is one level higher than lowering goes down. -/
theorem lower_height_le_levelsTaken (indent : Int) (e : Dom.Element) {nodes : List Node}
    (h : (lower o indent e).result = .ok nodes) :
    ∀ node ∈ Markdown.walk nodes, node.height ≤ levelsTaken o e + 1 := by
  rw [lower_levelsTaken ho hlimit] at h
  exact Markdown.height_le_of_mem_walk
    ((lowerLevels_height_le ho (levelsTaken o e) indent e).of_ok h)

end

theorem openings_le_dataNesting {e block : Dom.Element} (h : block ∈ e.named "script") :
    Json.openings (blockSource block) ≤ dataNesting e :=
  List.le_max_of_le' 0
    (List.mem_map_of_mem (f := fun block => Json.openings (blockSource block)) h) (Nat.le_refl _)

/-- The structured data below an element is not nested deeper than its brackets. A list that
    contributes its items is itself higher than they are. -/
theorem structuredData_height_le (e : Dom.Element) :
    (structuredData e).Ends (fun items => ∀ item ∈ items, item.height ≤ dataNesting e)
      fun _ => True := by
  refine structuredData_ends (fun items hheight item hitem => ?_)
    (fun block hblock value hread => ?_) fun _ _ _ _ _ => True.intro
  · exact Nat.le_trans (Nat.le_succ_of_le (Json.height_le_heightOfItems hitem)) hheight
  · -- The text of a block opens at least as much as its value is high.
    exact Nat.le_trans (Json.read_height_le hread) (openings_le_dataNesting hblock)

/-- The limit bounds the nesting, structured data apart. -/
theorem nesting_le {o : Options} {limit : Nat} (hlimit : o.maxDepth.deepest? = some (limit : Int))
    (e : Dom.Element) :
    nesting o e ≤ limit + 1 + if o.metadata.isExtended then dataNesting e else 0 := by
  unfold nesting levelsTaken
  rw [levelsWithin_of_deepest hlimit]
  exact Nat.add_le_add_right (Nat.min_le_left _ _) _

end PageDistill
