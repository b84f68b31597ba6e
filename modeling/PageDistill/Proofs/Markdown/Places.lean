import Mathlib.Data.List.Sort
import PageDistill.Markdown.Walk

/-!
# Places in a Tree

Where the nodes of a semantic tree stand, and what it is to list some of them in order.

A tree may hold the same node twice, so a list of its nodes does not say which of them it has. A
place does: it is the list of steps that leads to a node, the first of which chooses one of the
nodes at the top and each further one a child. A place is above another if the other goes on from
it. Places in lexicographic order are nodes in document order, since a place comes before all that
go on from it, and these come before the places to the right.

`ListedAt` is the specification of a listing: the nodes at the wanted places of a tree, in that
order, each place once. It says nothing of how the list is made, and it leaves one list only
(`ListedAt.unique`). A listing of a tree is put together from one of what is below the first node
and one of the rest (`ListedAt.cons`), so a recursion over trees builds its listing as it goes.

## Main definitions

* `nodeAt?`: The node at a place.
* `MatchAt`, `NoneAbove`: A place with a match, and a place without matches above it.
* `OutermostAt`: A place with a match that is below no other match.
* `ListedAt`: A list of the nodes at the wanted places.

## Theorems

* `noneAbove_cons_zero_iff`, `noneAbove_cons_succ_iff`: What is above a place, step by step.
* `ListedAt.append`, `ListedAt.embed`: Listings one after the other, and of a part of a tree.
* `ListedAt.cons`: A listing from those of the parts.
* `ListedAt.unique`: There is one listing of the wanted places.
-/

namespace PageDistill

namespace Markdown

/-- The node that some steps lead to from a node. The first step chooses a child of the node. -/
def Node.follow? (node : Node) : List Nat → Option Node
  | [] => some node
  | index :: path => node.children[index]?.bind fun child => child.follow? path

/-- The node at a place of a tree. The first step chooses one of the nodes at the top, so there is
    no node at the empty place. -/
def nodeAt? (nodes : List Node) : List Nat → Option Node
  | [] => none
  | index :: path => nodes[index]?.bind fun node => node.follow? path

/-- The places of the nodes that a test accepts. -/
def MatchAt (p : Node → Bool) (nodes : List Node) (path : List Nat) : Prop :=
  (nodeAt? nodes path).any p = true

/-- There is no match at the places above a place. -/
def NoneAbove (p : Node → Bool) (nodes : List Node) (path : List Nat) : Prop :=
  ∀ above, above <+: path → above ≠ path → ¬ MatchAt p nodes above

/-- The places of matches that are below no other match. -/
def OutermostAt (p : Node → Bool) (nodes : List Node) (path : List Nat) : Prop :=
  MatchAt p nodes path ∧ NoneAbove p nodes path

/-- A list goes through the nodes at the wanted places of a tree in document order, and comes to
    each place once. -/
def ListedAt (nodes : List Node) (wanted : List Nat → Prop) (out : List Node) : Prop :=
  ∃ paths : List (List Nat), paths.Pairwise (· < ·) ∧ (∀ path, path ∈ paths ↔ wanted path) ∧
    paths.map (nodeAt? nodes) = out.map some

section

variable {node : Node} {rest : List Node}

/-- An address below the first node is one below its children. -/
theorem nodeAt?_cons_zero (index : Nat) (path : List Nat) :
    nodeAt? (node :: rest) (0 :: index :: path) = nodeAt? node.children (index :: path) := rfl

/-- An address past the first node is one in the rest. -/
theorem nodeAt?_cons_succ (index : Nat) (path : List Nat) :
    nodeAt? (node :: rest) ((index + 1) :: path) = nodeAt? rest (index :: path) := rfl

section

variable (p : Node → Bool)

theorem not_matchAt_nil (nodes : List Node) : ¬ MatchAt p nodes [] := Bool.false_ne_true

theorem not_matchAt_of_nil (path : List Nat) : ¬ MatchAt p [] path := by
  cases path <;> exact Bool.false_ne_true

/-- The empty place is above every other, but nothing is there. -/
theorem noneAbove_cons_iff (nodes : List Node) (index : Nat) (path : List Nat) :
    NoneAbove p nodes (index :: path) ↔
      ∀ above, above <+: path → above ≠ path → ¬ MatchAt p nodes (index :: above) := by
  constructor
  · intro h above hprefix hne
    exact h (index :: above) (List.cons_prefix_cons.mpr ⟨rfl, hprefix⟩)
      fun heq => hne (List.cons.inj heq).2
  · intro h above hprefix hne
    rcases List.prefix_cons_iff.mp hprefix with rfl | ⟨inner, rfl, hinner⟩
    · exact not_matchAt_nil p nodes
    · exact h inner hinner fun heq => hne (congrArg _ heq)

theorem noneAbove_singleton (nodes : List Node) (index : Nat) : NoneAbove p nodes [index] :=
  (noneAbove_cons_iff p nodes index []).mpr fun _ hprefix hne =>
    absurd (List.prefix_nil.mp hprefix) hne

/-- Above a place below the first node are that node and what is above the place there. -/
theorem noneAbove_cons_zero_iff (index : Nat) (path : List Nat) :
    NoneAbove p (node :: rest) (0 :: index :: path) ↔
      ¬ p node = true ∧ NoneAbove p node.children (index :: path) := by
  rw [noneAbove_cons_iff]
  constructor
  · intro h
    refine ⟨h [] List.nil_prefix (List.cons_ne_nil index path).symm, fun above hprefix hne => ?_⟩
    cases above with
    | nil => exact not_matchAt_nil p _
    | cons step above => exact h (step :: above) hprefix hne
  · intro ⟨hnode, h⟩ above hprefix hne
    cases above with
    | nil => exact hnode
    | cons step above => exact h (step :: above) hprefix hne

theorem noneAbove_cons_succ_iff (index : Nat) (path : List Nat) :
    NoneAbove p (node :: rest) ((index + 1) :: path) ↔ NoneAbove p rest (index :: path) := by
  rw [noneAbove_cons_iff, noneAbove_cons_iff]
  rfl

end

end

theorem listedAt_nil (nodes : List Node) : ListedAt nodes (fun _ => False) [] :=
  ⟨[], List.Pairwise.nil, fun _ => iff_of_false List.not_mem_nil id, rfl⟩

/-- The same places may be told in other words. -/
theorem ListedAt.congr {nodes : List Node} {wanted wanted' : List Nat → Prop} {out : List Node}
    (h : ListedAt nodes wanted out) (heq : ∀ path, wanted path ↔ wanted' path) :
    ListedAt nodes wanted' out := by
  obtain ⟨paths, hsorted, hmem, hmap⟩ := h
  exact ⟨paths, hsorted, fun path => (hmem path).trans (heq path), hmap⟩

/-- A listing that is there on a condition only. -/
theorem ListedAt.guard {nodes : List Node} {wanted : List Nat → Prop} {out : List Node}
    (h : ListedAt nodes wanted out) (b : Bool) :
    ListedAt nodes (fun path => b = true ∧ wanted path) (if b then out else []) := by
  cases b with
  | true => exact h.congr fun path => (and_iff_right rfl).symm
  | false =>
      exact (listedAt_nil nodes).congr fun path =>
        iff_of_false id fun hcond => Bool.false_ne_true hcond.1

/-- Two listings one after the other, when the places of the first come before those of the
    second. -/
theorem ListedAt.append {nodes : List Node} {first second : List Nat → Prop} {out out' : List Node}
    (h : ListedAt nodes first out) (h' : ListedAt nodes second out')
    (hlt : ∀ path, first path → ∀ path', second path' → path < path') :
    ListedAt nodes (fun path => first path ∨ second path) (out ++ out') := by
  obtain ⟨paths, hsorted, hmem, hmap⟩ := h
  obtain ⟨paths', hsorted', hmem', hmap'⟩ := h'
  refine ⟨paths ++ paths', List.pairwise_append.mpr ⟨hsorted, hsorted', ?_⟩, ?_, ?_⟩
  · exact fun path hpath path' hpath' =>
      hlt path ((hmem path).mp hpath) path' ((hmem' path').mp hpath')
  · exact fun path => by rw [List.mem_append, hmem, hmem']
  · rw [List.map_append, List.map_append, hmap, hmap']

/-- The empty place holds no node, so a listing does not want it. -/
theorem ListedAt.exists_cons {nodes : List Node} {wanted : List Nat → Prop} {out : List Node}
    (h : ListedAt nodes wanted out) {path : List Nat} (hpath : wanted path) :
    ∃ index inner, path = index :: inner := by
  obtain ⟨paths, _, hmem, hmap⟩ := h
  cases path with
  | cons index inner => exact ⟨index, inner, rfl⟩
  | nil =>
      have hnone : nodeAt? nodes [] ∈ out.map some :=
        hmap ▸ List.mem_map_of_mem ((hmem []).mpr hpath)
      rcases List.mem_map.mp hnone with ⟨_, _, hsome⟩
      exact absurd hsome (Option.some_ne_none _)

/-- Nodes that are listed in a part of a tree are listed in the tree, at the places where the part
    is. -/
theorem ListedAt.embed {part nodes : List Node} {wanted : List Nat → Prop} {out : List Node}
    {f : List Nat → List Nat} (h : ListedAt part wanted out)
    (hnode : ∀ index path, nodeAt? nodes (f (index :: path)) = nodeAt? part (index :: path))
    (hlt : ∀ index path index' path', index :: path < index' :: path' →
      f (index :: path) < f (index' :: path')) :
    ListedAt nodes (fun path => ∃ inner, wanted inner ∧ path = f inner) out := by
  have hcons : ∀ path, wanted path → ∃ index inner, path = index :: inner :=
    fun _ hpath => h.exists_cons hpath
  obtain ⟨paths, hsorted, hmem, hmap⟩ := h
  refine ⟨paths.map f, ?_, fun path => ?_, ?_⟩
  · rw [List.pairwise_map]
    refine hsorted.imp_of_mem fun {a b} ha hb hab => ?_
    obtain ⟨index, inner, rfl⟩ := hcons a ((hmem a).mp ha)
    obtain ⟨index', inner', rfl⟩ := hcons b ((hmem b).mp hb)
    exact hlt index inner index' inner' hab
  · rw [List.mem_map]
    exact exists_congr fun inner => by rw [hmem, eq_comm]
  · rw [List.map_map, ← hmap]
    refine List.map_congr_left fun path hpath => ?_
    obtain ⟨index, inner, rfl⟩ := hcons path ((hmem path).mp hpath)
    exact hnode index inner

/-- A listing of what is below the first node and one of the rest of the tree make a listing of
    the tree, with the node itself in front or left out. -/
theorem ListedAt.cons {node : Node} {rest : List Node} {below after : List Nat → Prop}
    {outBelow outAfter : List Node} (hbelow : ListedAt node.children below outBelow)
    (hafter : ListedAt rest after outAfter) (takes enters : Bool) :
    ListedAt (node :: rest)
      (fun path => (takes = true ∧ path = [0]) ∨
        (enters = true ∧ ∃ inner, below inner ∧ path = 0 :: inner) ∨
        ∃ inner, after inner ∧ path = inner.modifyHead (· + 1))
      ((if takes then [node] else []) ++ ((if enters then outBelow else []) ++ outAfter)) := by
  have htop : ListedAt (node :: rest) (fun path => path = [0]) [node] :=
    ⟨[[0]], List.pairwise_singleton _ _, fun path => List.mem_singleton, rfl⟩
  have hbelowHere : ListedAt (node :: rest) (fun path => ∃ inner, below inner ∧ path = 0 :: inner)
      outBelow :=
    hbelow.embed nodeAt?_cons_zero fun _ _ _ _ hlt => List.cons_lt_cons_iff.mpr (.inr ⟨rfl, hlt⟩)
  have hafterHere : ListedAt (node :: rest)
      (fun path => ∃ inner, after inner ∧ path = inner.modifyHead (· + 1)) outAfter := by
    refine hafter.embed nodeAt?_cons_succ fun index path index' path' hlt => ?_
    rw [List.cons_lt_cons_iff] at hlt
    exact List.cons_lt_cons_iff.mpr (hlt.imp Nat.succ_lt_succ fun h => ⟨congrArg _ h.1, h.2⟩)
  -- The node comes first, then what is below it, and then what starts with a later step.
  refine (htop.guard takes).append ((hbelowHere.guard enters).append hafterHere ?_) ?_
  · rintro _ ⟨_, inner, _, rfl⟩ _ ⟨inner', hinner', rfl⟩
    obtain ⟨index, path, rfl⟩ := hafter.exists_cons hinner'
    exact List.cons_lt_cons_iff.mpr (.inl (Nat.succ_pos index))
  · rintro _ ⟨_, rfl⟩ _ (⟨_, inner, hinner, rfl⟩ | ⟨inner, hinner, rfl⟩)
    · obtain ⟨index, path, rfl⟩ := hbelow.exists_cons hinner
      exact List.cons_lt_cons_iff.mpr (.inr ⟨rfl, List.nil_lt_cons index path⟩)
    · obtain ⟨index, path, rfl⟩ := hafter.exists_cons hinner
      exact List.cons_lt_cons_iff.mpr (.inl (Nat.succ_pos index))

/-- There is one listing of the wanted places only. -/
theorem ListedAt.unique {nodes : List Node} {wanted : List Nat → Prop} {out out' : List Node}
    (h : ListedAt nodes wanted out) (h' : ListedAt nodes wanted out') : out = out' := by
  obtain ⟨paths, hsorted, hmem, hmap⟩ := h
  obtain ⟨paths', hsorted', hmem', hmap'⟩ := h'
  have hpaths : paths = paths' :=
    hsorted.eq_of_mem_iff hsorted' fun path => (hmem path).trans (hmem' path).symm
  rw [hpaths, hmap'] at hmap
  exact (List.map_injective_iff.mpr (Option.some_injective Node) hmap).symm

end Markdown

end PageDistill
