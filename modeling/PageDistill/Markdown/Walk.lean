import PageDistill.Markdown.Node

/-!
# Walking and Searching the Semantic Tree

The order in which a tree is gone through, and the two searches in it.

`Node.children` says what lies directly below a node for a walk: the contents of
items and rich cells, but not the items, rows and cells around them. A walk
visits a node and then what lies below it, so it is the preorder of the tree
that `children` spans.

`walk` is a recursion over the tree. A search does without recursion: it keeps
the nodes that it has yet to come to on a stack, and takes one of them off in
each turn. What it does then is its plan. A walk takes every node and looks below
all of them; `findAll` takes a matching node without looking below it, and looks
below any other. `find?` takes the first match on a walk.

## Main definitions

* `Node.children`: The nodes directly below a node.
* `Node.walk`, `walk`: The preorder of a node and of a list of nodes.
* `Plan`: What a search does with the nodes that it comes to.
* `Search`, `Search.turn`, `Search.run`: A search, one turn of it, and all of it.
* `visited`: What a search visits that looks everywhere.
* `find?`: The first match.
* `findAll`: All outermost matches.

## Theorems

* `walk_eq_flatMap`: Walking a list is walking its members one after another.
* `Node.walk_eq`: A walk is a node followed by the walk of its children.
* `forall_walk_singleton`, `forall_walk_flatten`: What holds of all that a walk visits.
* `Search.turn_of_ahead_eq_nil`, `Search.turn_of_ahead_eq_cons`: What a turn does.
-/

namespace PageDistill

namespace Markdown

/-- The nodes of a rich cell; a plain cell has none. -/
def Cell.content : Cell → List Node
  | .plain .. => []
  | .rich content _ => content

namespace Node

/-- The nodes directly below a node. -/
def children : Node → List Node
  | .emphasis _ content => content
  | .link _ content => content
  | .heading _ content => content
  | .list _ items => items.flatten
  | .table rows _ => rows.flatten.flatMap Cell.content
  | .quote content => content
  | .semantic _ content => content
  | .listItem content => content
  | _ => []

end Node

mutual

/-- The node, then everything below it, in document order. -/
def Node.walk : Node → List Node
  | .emphasis style content => .emphasis style content :: walk content
  | .link href content => .link href content :: walk content
  | .heading level content => .heading level content :: walk content
  | .list ordered items => .list ordered items :: walkItems items
  | .table rows colIds => .table rows colIds :: walkRows rows
  | .quote content => .quote content :: walk content
  | .semantic element content => .semantic element content :: walk content
  | .listItem content => .listItem content :: walk content
  | node => [node]

/-- The walks of a list of nodes, one after another. -/
def walk : List Node → List Node
  | [] => []
  | node :: nodes => node.walk ++ walk nodes

/-- The walks of the contents of items. -/
def walkItems : List (List Node) → List Node
  | [] => []
  | item :: items => walk item ++ walkItems items

/-- The walks of the contents of the cells of rows. -/
def walkRows : List (List Cell) → List Node
  | [] => []
  | row :: rows => walkRow row ++ walkRows rows

/-- The walks of the contents of the cells of a row. -/
def walkRow : List Cell → List Node
  | [] => []
  | .plain .. :: cells => walkRow cells
  | .rich content _ :: cells => walk content ++ walkRow cells

end

/-- Walking a list is walking its members one after another. -/
theorem walk_eq_flatMap (nodes : List Node) : walk nodes = nodes.flatMap Node.walk := by
  induction nodes with
  | nil => rfl
  | cons node nodes ih => rw [walk, ih, List.flatMap_cons]

theorem walk_append (a b : List Node) : walk (a ++ b) = walk a ++ walk b := by
  rw [walk_eq_flatMap, walk_eq_flatMap, walk_eq_flatMap, List.flatMap_append]

theorem walkItems_eq (items : List (List Node)) : walkItems items = walk items.flatten := by
  induction items with
  | nil => rfl
  | cons item items ih => rw [walkItems, ih, List.flatten_cons, walk_append]

theorem walkRow_eq (cells : List Cell) : walkRow cells = walk (cells.flatMap Cell.content) := by
  induction cells with
  | nil => rfl
  | cons cell cells ih =>
      rw [List.flatMap_cons, walk_append, ← ih]
      cases cell with
      | plain text marks => rfl
      | rich content marks => rfl

theorem walkRows_eq (rows : List (List Cell)) :
    walkRows rows = walk (rows.flatten.flatMap Cell.content) := by
  induction rows with
  | nil => rfl
  | cons row rows ih =>
      rw [walkRows, ih, walkRow_eq, List.flatten_cons, List.flatMap_append, walk_append]

/-- A walk is a node followed by the walk of its children. -/
theorem Node.walk_eq (node : Node) : node.walk = node :: Markdown.walk node.children := by
  cases node with
  | list ordered items => rw [Node.walk, walkItems_eq, Node.children]
  | table rows colIds => rw [Node.walk, walkRows_eq, Node.children]
  | _ => rfl

theorem walk_cons (node : Node) (rest : List Node) :
    walk (node :: rest) = node :: (walk node.children ++ walk rest) := by
  rw [walk, Node.walk_eq, List.cons_append]

section

variable {p : Node → Prop}

-- What holds of a node and of all below its children holds of all that is met.
theorem forall_walk_singleton {node : Node} (hown : p node)
    (hbelow : ∀ d ∈ walk node.children, p d) : ∀ d ∈ walk [node], p d := by
  rw [walk_eq_flatMap, List.flatMap_singleton, Node.walk_eq]
  exact List.forall_mem_cons.mpr ⟨hown, hbelow⟩

theorem forall_walk_flatten {parts : List (List Node)} (h : ∀ part ∈ parts, ∀ d ∈ walk part, p d) :
    ∀ d ∈ walk parts.flatten, p d := by
  induction parts with
  | nil => exact fun _ hd => absurd hd List.not_mem_nil
  | cons part parts ih =>
      rw [List.flatten_cons, walk_append]
      exact List.forall_mem_append.mpr ⟨h part List.mem_cons_self,
        ih fun other hother => h other (List.mem_cons_of_mem part hother)⟩

end

/-- What a search does with the nodes that it comes to: which of them it takes,
    and which of them it looks below. -/
structure Plan where
  takes : Node → Bool
  enters : Node → Bool

namespace Plan

/-- Takes every node and looks below every node. -/
def everything : Plan := ⟨fun _ => true, fun _ => true⟩

/-- Takes the nodes that a test accepts and looks below the others. -/
def outermost (p : Node → Bool) : Plan := ⟨p, fun node => !p node⟩

end Plan

/-- A search on its way: what it has taken so far, and the stack of the nodes
    that it has yet to come to. The top of the stack is its end. -/
@[ext]
structure Search where
  taken : List Node
  stack : List Node

namespace Search

/-- A search that begins, with the first of some nodes on top. -/
def start (nodes : List Node) : Search := ⟨[], nodes.reverse⟩

/-- The nodes on the stack in the order in which they come off it. -/
def ahead (s : Search) : List Node := s.stack.reverse

/-- One turn of a search. The node on top comes off the stack, and if the search
    looks below it, its children go there, the last of them first. A search that
    has nothing left to come to stays as it is. -/
def turn (plan : Plan) (s : Search) : Search :=
  match s.stack.getLast? with
  | none => s
  | some node =>
    ⟨if plan.takes node then s.taken ++ [node] else s.taken,
      if plan.enters node then s.stack.dropLast ++ node.children.reverse else s.stack.dropLast⟩

section

variable {plan : Plan} {s : Search}

theorem ahead_start (nodes : List Node) : (start nodes).ahead = nodes := List.reverse_reverse nodes

theorem ahead_eq_nil_iff : s.ahead = [] ↔ s.stack = [] := List.reverse_eq_nil_iff

theorem turn_of_ahead_eq_nil (h : s.ahead = []) : s.turn plan = s := by
  rw [turn, ahead_eq_nil_iff.mp h]
  rfl

/-- A turn takes the next node or not, and what it looks below comes before all
    that was ahead already. -/
theorem turn_of_ahead_eq_cons {node : Node} {rest : List Node} (h : s.ahead = node :: rest) :
    (s.turn plan).taken = s.taken ++ [node].filter plan.takes ∧
      (s.turn plan).ahead = (if plan.enters node then node.children else []) ++ rest := by
  -- What is ahead is the stack from its top down, so the next node is the last of the stack.
  have hstack : s.stack = rest.reverse ++ [node] := by
    rw [← List.reverse_reverse s.stack, ← ahead, h, List.reverse_cons]
  rw [turn, hstack, List.getLast?_concat, List.dropLast_concat, ahead]
  constructor
  · cases htakes : plan.takes node <;> simp [htakes]
  · cases henters : plan.enters node <;> simp [henters]

/-- A turn leaves fewer nodes to come to. -/
theorem length_walk_turn_lt (plan : Plan) (h : s.stack ≠ []) :
    (walk (s.turn plan).ahead).length < (walk s.ahead).length := by
  cases hahead : s.ahead with
  | nil => exact absurd (ahead_eq_nil_iff.mp hahead) h
  | cons node rest =>
      rw [(turn_of_ahead_eq_cons hahead).2, walk_append, walk_cons, List.length_cons,
        List.length_append, List.length_append, Nat.lt_succ_iff]
      refine Nat.add_le_add_right ?_ _
      cases plan.enters node with
      | true => exact Nat.le_refl _
      | false => exact Nat.zero_le _

end

/-- What a search has taken when it has nothing left to come to. -/
def run (plan : Plan) (s : Search) : List Node :=
  if _ : s.stack = [] then s.taken else (s.turn plan).run plan
termination_by (walk s.ahead).length
decreasing_by exact length_walk_turn_lt plan ‹_›

end Search

/-- The nodes that a search visits which looks everywhere, turn by turn. -/
def visited (nodes : List Node) : List Node := (Search.start nodes).run .everything

/-- The first visited node that a test accepts. -/
def find? (p : Node → Bool) (nodes : List Node) : Option Node := (visited nodes).find? p

/-- The outermost nodes that a test accepts, in document order. -/
def findAll (p : Node → Bool) (nodes : List Node) : List Node :=
  (Search.start nodes).run (.outermost p)

end Markdown

end PageDistill
