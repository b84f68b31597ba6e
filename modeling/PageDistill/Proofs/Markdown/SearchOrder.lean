import Mathlib.Logic.Function.Iterate
import PageDistill.Proofs.Markdown.Places

/-!
# The Order of a Search

What a search with a stack comes to, said without the stack.

A search looks below some nodes and not below others. `walkBelow` is the recursion that does the
same: a node, then what is met below it if the search looks there, then what is met in the nodes
after it. One turn of a search takes the head off that list (`Search.walkBelow_turn`), whatever
the stack is. So after any number of turns the search has come to as many members of the list as
there were turns, and the others are ahead (`Search.iterate_turn`). The list is finite, and a
search ends when it has come to the last member.

With the stack gone, what is left is a recursion over a tree, and what it takes is told by places:
the nodes that the plan takes, if the search looks below all nodes above them
(`listedAt_walkBelow`). A walk looks everywhere, so it lists all places of a tree. A search for
all matches does not look below a match, so it lists the matches that are below no other.

## Main definitions

* `walkBelow`: What a search comes to, as a recursion.
* `Plan.TakesAt`: The places that a search takes.

## Theorems

* `Search.walkBelow_turn`: What a turn does to the list of all that a search comes to.
* `Search.iterate_turn`: What a search has taken after some turns, and what is ahead.
* `Search.iterate_turn_length`: A whole search is a number of turns.
* `Search.run_eq`: What a whole search takes.
* `find?_eq_head?_findAll`: The first match is the first of the outermost matches.
* `listedAt_walkBelow`: The places of what a search takes.
* `search_documentOrder`: Walks and searches agree with the recursion.
-/

namespace PageDistill

namespace Markdown

/-- The nodes that a search comes to which looks only below some nodes. -/
def walkBelow (enters : Node → Bool) : List Node → List Node
  | [] => []
  | node :: rest =>
    node :: ((if enters node then walkBelow enters node.children else []) ++ walkBelow enters rest)
termination_by nodes => (walk nodes).length
decreasing_by all_goals (rw [walk_cons, List.length_cons, List.length_append]; omega)

section

variable (enters : Node → Bool)

theorem walkBelow_append (a b : List Node) :
    walkBelow enters (a ++ b) = walkBelow enters a ++ walkBelow enters b := by
  induction a with
  | nil => rw [walkBelow, List.nil_append, List.nil_append]
  | cons node rest ih =>
      rw [List.cons_append, walkBelow, walkBelow, ih, List.cons_append, List.append_assoc]

theorem walkBelow_eq_nil_iff (nodes : List Node) : walkBelow enters nodes = [] ↔ nodes = [] := by
  cases nodes with
  | nil => rw [walkBelow]
  | cons node rest => simp [walkBelow]

/-- A search that looks everywhere comes to what a walk visits. -/
theorem walkBelow_everything (nodes : List Node) :
    walkBelow (fun _ => true) nodes = walk nodes := by
  fun_induction walkBelow (fun _ => true) nodes with
  | case1 => rfl
  | case2 node rest hbelow hrest => rw [if_pos rfl, hbelow, hrest, walk_cons]

theorem length_walkBelow_le (nodes : List Node) :
    (walkBelow enters nodes).length ≤ (walk nodes).length := by
  fun_induction walkBelow enters nodes with
  | case1 => exact Nat.le_refl 0
  | case2 node rest hbelow hrest =>
      rw [walk_cons, List.length_cons, List.length_cons, List.length_append, List.length_append]
      refine Nat.succ_le_succ (Nat.add_le_add ?_ hrest)
      split
      · exact hbelow
      · exact Nat.zero_le _

end

namespace Search

variable {plan : Plan}

/-- A turn takes the head off the list of all that a search comes to. -/
theorem walkBelow_turn {s : Search} {node : Node} {rest : List Node} (h : s.ahead = node :: rest) :
    walkBelow plan.enters s.ahead = node :: walkBelow plan.enters (s.turn plan).ahead := by
  rw [h, (turn_of_ahead_eq_cons h).2, walkBelow_append, walkBelow]
  cases plan.enters node with
  | true => rfl
  | false => rw [if_neg Bool.false_ne_true, if_neg Bool.false_ne_true, walkBelow]

/-- After some turns a search has taken what its plan takes of the first nodes it comes to, as
    many as there were turns, and the nodes that come after these are ahead. -/
theorem iterate_turn (plan : Plan) (turns : Nat) (s : Search) :
    ((turn plan)^[turns] s).taken =
        s.taken ++ ((walkBelow plan.enters s.ahead).take turns).filter plan.takes ∧
      walkBelow plan.enters ((turn plan)^[turns] s).ahead =
        (walkBelow plan.enters s.ahead).drop turns := by
  -- The turns after the first are those of a search that starts where the first one has ended.
  induction turns generalizing s with
  | zero => simp
  | succ turns ih =>
      rw [Function.iterate_succ_apply, (ih (s.turn plan)).1, (ih (s.turn plan)).2]
      cases hahead : s.ahead with
      | nil => simp [turn_of_ahead_eq_nil hahead, hahead, walkBelow]
      | cons node rest =>
          rw [← hahead, walkBelow_turn hahead, (turn_of_ahead_eq_cons hahead).1,
            List.take_succ_cons, List.drop_succ_cons, List.append_assoc, ← List.filter_append,
            List.singleton_append]
          exact ⟨rfl, rfl⟩

/-- A search ends after as many turns as there are nodes that it comes to, and not before. -/
theorem stack_iterate_turn_eq_nil_iff (plan : Plan) (turns : Nat) (s : Search) :
    ((turn plan)^[turns] s).stack = [] ↔ (walkBelow plan.enters s.ahead).length ≤ turns := by
  rw [← ahead_eq_nil_iff, ← walkBelow_eq_nil_iff plan.enters, (iterate_turn plan turns s).2,
    List.drop_eq_nil_iff]

/-- A whole search takes what its plan takes of the nodes it comes to. -/
theorem run_eq (plan : Plan) (s : Search) :
    s.run plan = s.taken ++ (walkBelow plan.enters s.ahead).filter plan.takes := by
  fun_induction run plan s with
  | case1 s hstack => rw [ahead_eq_nil_iff.mpr hstack, walkBelow, List.filter_nil, List.append_nil]
  | case2 s hstack ih =>
      cases hahead : s.ahead with
      | nil => exact absurd (ahead_eq_nil_iff.mp hahead) hstack
      | cons node rest =>
          rw [ih, ← hahead, walkBelow_turn hahead, (turn_of_ahead_eq_cons hahead).1,
            List.append_assoc, ← List.filter_append, List.singleton_append]

/-- A whole search is as many turns as there are nodes that it comes to. -/
theorem iterate_turn_length (plan : Plan) (s : Search) :
    (turn plan)^[(walkBelow plan.enters s.ahead).length] s = ⟨s.run plan, []⟩ := by
  apply Search.ext
  · rw [(iterate_turn plan _ s).1, List.take_length, run_eq]
  · exact (stack_iterate_turn_eq_nil_iff plan _ s).mpr (Nat.le_refl _)

end Search

/-- What a search takes, as a recursion. -/
theorem filter_walkBelow_cons (plan : Plan) (node : Node) (rest : List Node) :
    (walkBelow plan.enters (node :: rest)).filter plan.takes =
      (if plan.takes node then [node] else []) ++
        ((if plan.enters node then (walkBelow plan.enters node.children).filter plan.takes
          else []) ++
        (walkBelow plan.enters rest).filter plan.takes) := by
  rw [walkBelow, List.filter_cons, List.filter_append, apply_ite (List.filter plan.takes),
    List.filter_nil]
  cases plan.takes node <;> rfl

theorem filter_walkBelow_everything (nodes : List Node) :
    (walkBelow Plan.everything.enters nodes).filter Plan.everything.takes = walk nodes :=
  (List.filter_eq_self.mpr fun _ _ => rfl).trans (walkBelow_everything nodes)

/-- A walk that is made turn by turn visits what the recursion visits. -/
theorem visited_eq (nodes : List Node) : visited nodes = walk nodes := by
  rw [visited, Search.run_eq, Search.ahead_start, filter_walkBelow_everything]
  rfl

theorem findAll_eq (p : Node → Bool) (nodes : List Node) :
    findAll p nodes = (walkBelow (fun node => !p node) nodes).filter p := by
  rw [findAll, Search.run_eq, Search.ahead_start]
  rfl

/-- What lies below a match comes after it, so leaving it out does not change the first match. -/
theorem find?_walkBelow (p : Node → Bool) (nodes : List Node) :
    (walkBelow (fun node => !p node) nodes).find? p = (walk nodes).find? p := by
  fun_induction walkBelow (fun node => !p node) nodes with
  | case1 => rfl
  | case2 node rest hbelow hrest =>
      rw [walk_cons, List.find?_cons, List.find?_cons]
      -- A match ends both searches for the first one. Any other node is looked below in both.
      cases hp : p node with
      | true => rfl
      | false =>
          simp only [Bool.not_false, if_true]
          rw [List.find?_append, List.find?_append, hbelow, hrest]

theorem find?_eq_head?_findAll (p : Node → Bool) (nodes : List Node) :
    find? p nodes = (findAll p nodes).head? := by
  rw [find?, visited_eq, findAll_eq, List.head?_filter, find?_walkBelow]

/-- The places whose nodes a search takes: it looks below all nodes above them. -/
def Plan.TakesAt (plan : Plan) (nodes : List Node) (path : List Nat) : Prop :=
  MatchAt plan.takes nodes path ∧ NoneAbove (fun node => !plan.enters node) nodes path

section

variable {node : Node} {rest : List Node} (plan : Plan)

theorem Plan.takesAt_top_iff : plan.TakesAt (node :: rest) [0] ↔ plan.takes node = true :=
  and_iff_left (noneAbove_singleton _ _ 0)

theorem Plan.takesAt_cons_zero_iff (index : Nat) (path : List Nat) :
    plan.TakesAt (node :: rest) (0 :: index :: path) ↔
      plan.enters node = true ∧ plan.TakesAt node.children (index :: path) := by
  rw [TakesAt, noneAbove_cons_zero_iff, Bool.not_eq_true', Bool.not_eq_false, ← and_left_comm]
  rfl

theorem Plan.takesAt_cons_succ_iff (index : Nat) (path : List Nat) :
    plan.TakesAt (node :: rest) ((index + 1) :: path) ↔ plan.TakesAt rest (index :: path) := by
  rw [TakesAt, noneAbove_cons_succ_iff]
  rfl

/-- A search takes the first node of a tree, or something below it, or something in the rest of
    the tree. -/
theorem Plan.takesAt_cons_iff (path : List Nat) :
    plan.TakesAt (node :: rest) path ↔
      (plan.takes node = true ∧ path = [0]) ∨
        (plan.enters node = true ∧
          ∃ below, plan.TakesAt node.children below ∧ path = 0 :: below) ∨
        ∃ after, plan.TakesAt rest after ∧ path = after.modifyHead (· + 1) := by
  constructor
  · intro h
    -- A path begins with a number: the first node, with or without a way down, or one of the
    -- others.
    rcases path with _ | ⟨_ | index, path⟩
    · exact absurd h.1 (not_matchAt_nil _ _)
    · cases path with
      | nil => exact .inl ⟨plan.takesAt_top_iff.mp h, rfl⟩
      | cons index path =>
          have hbelow := (plan.takesAt_cons_zero_iff index path).mp h
          exact .inr (.inl ⟨hbelow.1, index :: path, hbelow.2, rfl⟩)
    · exact .inr (.inr ⟨index :: path, (plan.takesAt_cons_succ_iff index path).mp h, rfl⟩)
  · rintro (⟨htakes, rfl⟩ | ⟨henters, below, hbelow, rfl⟩ | ⟨after, hafter, rfl⟩)
    · exact plan.takesAt_top_iff.mpr htakes
    · cases below with
      | nil => exact absurd hbelow.1 (not_matchAt_nil _ _)
      | cons index path => exact (plan.takesAt_cons_zero_iff index path).mpr ⟨henters, hbelow⟩
    · cases after with
      | nil => exact absurd hafter.1 (not_matchAt_nil _ _)
      | cons index path => exact (plan.takesAt_cons_succ_iff index path).mpr hafter

end

/-- What a search takes are the nodes at the places that it takes, in document order. -/
theorem listedAt_walkBelow (plan : Plan) (nodes : List Node) :
    ListedAt nodes (plan.TakesAt nodes) ((walkBelow plan.enters nodes).filter plan.takes) := by
  -- The induction is that of the recursion, so it has a listing for each part of the tree.
  induction nodes using walkBelow.induct with
  | case1 =>
      rw [walkBelow, List.filter_nil]
      exact (listedAt_nil []).congr fun path =>
        iff_of_false id fun htakes => not_matchAt_of_nil _ path htakes.1
  | case2 node rest hbelow hrest =>
      rw [filter_walkBelow_cons]
      exact (hbelow.cons hrest (plan.takes node) (plan.enters node)).congr fun path =>
        (plan.takesAt_cons_iff path).symm

/-- A walk takes what stands at any address. -/
theorem takesAt_everything_iff (nodes : List Node) (path : List Nat) :
    Plan.everything.TakesAt nodes path ↔ (nodeAt? nodes path).isSome = true := by
  have hnone : NoneAbove (fun node => !Plan.everything.enters node) nodes path := by
    intro above _ _
    unfold MatchAt
    cases nodeAt? nodes above <;> exact Bool.false_ne_true
  rw [Plan.TakesAt, and_iff_left hnone, MatchAt]
  cases nodeAt? nodes path <;> exact Iff.rfl

/-- A search for outermost matches takes those with no match above them. -/
theorem takesAt_outermost_iff (p : Node → Bool) (nodes : List Node) (path : List Nat) :
    (Plan.outermost p).TakesAt nodes path ↔ OutermostAt p nodes path := by
  simp only [Plan.TakesAt, Plan.outermost, Bool.not_not, OutermostAt]

/-- A walk lists all nodes of a tree. -/
theorem listedAt_walk (nodes : List Node) :
    ListedAt nodes (fun path => (nodeAt? nodes path).isSome = true) (walk nodes) := by
  have h := (listedAt_walkBelow .everything nodes).congr (takesAt_everything_iff nodes)
  rwa [filter_walkBelow_everything] at h

/-- A search for all matches lists the outermost ones. -/
theorem listedAt_findAll (p : Node → Bool) (nodes : List Node) :
    ListedAt nodes (OutermostAt p nodes) (findAll p nodes) := by
  rw [findAll_eq]
  exact (listedAt_walkBelow (.outermost p) nodes).congr (takesAt_outermost_iff p nodes)

/-- After some turns a walk has visited as many nodes as there were turns, in the order of the
    recursion, and it ends after the last of them. -/
theorem iterate_turn_everything (turns : Nat) (nodes : List Node) :
    ((Search.turn .everything)^[turns] (Search.start nodes)).taken = (walk nodes).take turns ∧
      (((Search.turn .everything)^[turns] (Search.start nodes)).stack = [] ↔
        (walk nodes).length ≤ turns) := by
  have hbelow : walkBelow Plan.everything.enters (Search.start nodes).ahead = walk nodes := by
    rw [Search.ahead_start]
    exact walkBelow_everything nodes
  rw [Search.stack_iterate_turn_eq_nil_iff, (Search.iterate_turn _ turns _).1, hbelow]
  exact ⟨List.filter_eq_self.mpr fun _ _ => rfl, Iff.rfl⟩

/-- A search for all matches takes no more turns than a walk. -/
theorem exists_iterate_turn_outermost (p : Node → Bool) (nodes : List Node) :
    ∃ turns ≤ (walk nodes).length,
      (Search.turn (.outermost p))^[turns] (Search.start nodes) = ⟨findAll p nodes, []⟩ := by
  have hrun := Search.iterate_turn_length (.outermost p) (Search.start nodes)
  rw [Search.ahead_start] at hrun
  exact ⟨_, length_walkBelow_le _ nodes, hrun⟩

/-- A walk and the two searches agree with the recursion over a tree; a tree that is one node is
    the list of that node.

    A walk visits one more node in each turn, ends after as many turns as there are nodes, and has
    visited each node and then what the walk of its children visits: the nodes at all places of the
    tree, in document order. A search for all matches ends too, and no later. It finds the nodes at
    the places of the matches that are below no other match, in document order and each place once.
    The first match is the first of these, and there is none if there are none. -/
theorem search_documentOrder (p : Node → Bool) (nodes : List Node) :
    (∀ turns : Nat,
      ((Search.turn .everything)^[turns] (Search.start nodes)).taken = (walk nodes).take turns ∧
      (((Search.turn .everything)^[turns] (Search.start nodes)).stack = [] ↔
        (walk nodes).length ≤ turns)) ∧
    visited nodes = walk nodes ∧
    visited nodes = nodes.flatMap (fun node => node :: visited node.children) ∧
    (∀ out, ListedAt nodes (fun path => (nodeAt? nodes path).isSome = true) out ↔
      out = visited nodes) ∧
    (∃ turns ≤ (walk nodes).length,
      (Search.turn (.outermost p))^[turns] (Search.start nodes) = ⟨findAll p nodes, []⟩) ∧
    (∀ out, ListedAt nodes (OutermostAt p nodes) out ↔ out = findAll p nodes) ∧
    find? p nodes = (findAll p nodes).head? ∧
    (find? p nodes = none ↔ findAll p nodes = []) := by
  refine ⟨fun turns => iterate_turn_everything turns nodes, visited_eq nodes, ?_, fun out => ?_,
    exists_iterate_turn_outermost p nodes, fun out => ?_, find?_eq_head?_findAll p nodes, ?_⟩
  · rw [visited_eq, walk_eq_flatMap]
    exact List.flatMap_congr fun node _ => by rw [Node.walk_eq, visited_eq]
  · rw [visited_eq]
    exact ⟨fun h => h.unique (listedAt_walk nodes), fun h => h ▸ listedAt_walk nodes⟩
  · exact ⟨fun h => h.unique (listedAt_findAll p nodes), fun h => h ▸ listedAt_findAll p nodes⟩
  · rw [find?_eq_head?_findAll, List.head?_eq_none_iff]

-- The text stands there twice, and once it is below a match.
example :
    findAll Node.isInline [.emphasis .bold [.text "x"], .text "x"] =
      [.emphasis .bold [.text "x"], .text "x"] := by
  cbv

end Markdown

end PageDistill
