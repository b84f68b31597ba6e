import PageDistill.Markdown.Render
import PageDistill.Markdown.Walk

/-!
# The Nodes That a Rendering Comes To

A rendering meets no node that a walk does not visit.

The recursion of a rendering and that of a walk are two recursions over the same tree, and neither
is defined by the other. What a rendering meets shows in its hook, which is asked about every node
before anything else is done with it. So the comparison is made there: a hook that would refuse
only nodes outside the walk never gets to refuse (`renderContent_refusing`).

## Main definitions

* `Options.refusing`: Options with a hook that refuses some nodes.

## Theorems

* `renderContent_refusing`: Refusing nodes outside the walk changes nothing.
-/

namespace PageDistill

open Markdown (Node Cell walk)

/-- The same options with a hook that refuses the nodes of a test, and has no answer for others.
    The hook on made-up nodes is shown the options as they were. -/
def Options.refusing (o : Options) (test : Node → Bool) (fault : HookFault) : Options :=
  { o with
    overrideNode := some fun _ node _ => if test node then .error fault else .ok none
    renderCustom := o.renderCustom.map fun ask _ => ask o.view }

/-- The hook on made-up nodes answers as it did. -/
theorem Options.refusing_renderCustom (o : Options) (test : Node → Bool) (fault : HookFault) :
    (o.refusing test fault).shownTo (o.refusing test fault).renderCustom =
      o.shownTo o.renderCustom := by
  unfold Options.refusing Options.shownTo
  rw [Option.map_map]
  rfl

namespace Markdown

section

variable {o : Options} {test : Node → Bool} {fault : HookFault}

/-- Whoever has no answer is asked in vain. -/
theorem askNodeHook_refusing {node : Node} (h : test node = false) (indent : Int) :
    askNodeHook ((o.refusing test fault).shownTo (o.refusing test fault).overrideNode) node
      indent = .ok none := by
  unfold Options.refusing Options.shownTo askNodeHook
  simp only [Option.map_some, h, Bool.false_eq_true, if_false]

mutual

/-- The two recursions run side by side, so the walk of each part is a part of the walk. -/
theorem renderNodes_refusing (ho : o.overrideNode = none) (indent : Int) (out : List Char)
    (nodes : List Node) (h : ∀ node ∈ walk nodes, test node = false) :
    renderNodes (o.refusing test fault) indent out nodes = renderNodes o indent out nodes := by
  cases nodes with
  | nil => rfl
  | cons node rest =>
      rw [walk, List.forall_mem_append] at h
      have hrest : ∀ out, renderNodes (o.refusing test fault) indent out rest =
          renderNodes o indent out rest := fun out => renderNodes_refusing ho indent out rest h.2
      have hbody := body_refusing ho indent node h.1
      have hself : test node = false :=
        h.1 node (by rw [Node.walk_eq]; exact List.mem_cons_self)
      -- The refusing hook is not met here, and there is no other.
      have hnone : askNodeHook (o.shownTo o.overrideNode) node indent = .ok none := by
        rw [ho]
        rfl
      unfold renderNodes
      rw [askNodeHook_refusing hself, hnone, Options.refusing_renderCustom]
      simp only [hrest]
      cases node with
      | custom payload => rfl
      | _ =>
          simp only [hbody]

/-- Nothing is refused for a node with no such node in it. -/
theorem body_refusing (ho : o.overrideNode = none) (indent : Int) (node : Node)
    (h : ∀ d ∈ node.walk, test d = false) :
    node.body (o.refusing test fault) indent = node.body o indent := by
  cases node with
  | emphasis style content =>
      unfold Node.body
      rw [renderNodes_refusing ho indent [] content fun d hd => h d (List.mem_cons_of_mem _ hd)]
  | link href content =>
      unfold Node.body
      rw [renderNodes_refusing ho (indent + 1) [] content fun d hd =>
        h d (List.mem_cons_of_mem _ hd)]
  | heading level content =>
      unfold Node.body
      rw [renderNodes_refusing ho indent [] content fun d hd => h d (List.mem_cons_of_mem _ hd)]
  | list ordered items =>
      unfold Node.body
      rw [renderItems_refusing ho indent ordered 1 items fun d hd =>
        h d (List.mem_cons_of_mem _ hd)]
  | table rows colIds =>
      unfold Node.body
      rw [renderRows_refusing ho indent _ rows fun d hd => h d (List.mem_cons_of_mem _ hd)]
  | quote content =>
      unfold Node.body
      rw [renderNodes_refusing ho indent [] content fun d hd => h d (List.mem_cons_of_mem _ hd)]
  | semantic element content =>
      unfold Node.body
      rw [renderNodes_refusing ho indent [] content fun d hd => h d (List.mem_cons_of_mem _ hd)]
  | _ => rfl

theorem renderItems_refusing (ho : o.overrideNode = none) (indent : Int) (ordered : Bool)
    (number : Nat) (items : List (List Node)) (h : ∀ d ∈ walkItems items, test d = false) :
    renderItems (o.refusing test fault) indent ordered number items =
      renderItems o indent ordered number items := by
  cases items with
  | nil => rfl
  | cons item items =>
      rw [walkItems, List.forall_mem_append] at h
      unfold renderItems
      rw [renderNodes_refusing ho (indent + 1) [] item h.1,
        renderItems_refusing ho indent ordered (number + 1) items h.2]

theorem renderRows_refusing (ho : o.overrideNode = none) (indent : Int) (width : Int)
    (rows : List (List Cell)) (h : ∀ d ∈ walkRows rows, test d = false) :
    renderRows (o.refusing test fault) indent width rows = renderRows o indent width rows := by
  cases rows with
  | nil => rfl
  | cons row rows =>
      rw [walkRows, List.forall_mem_append] at h
      unfold renderRows
      rw [renderRow_refusing ho indent row h.1, renderRows_refusing ho indent width rows h.2]

/-- Nor is it for the cells of a row. -/
theorem renderRow_refusing (ho : o.overrideNode = none) (indent : Int) (cells : List Cell)
    (h : ∀ d ∈ walkRow cells, test d = false) :
    renderRow (o.refusing test fault) indent cells = renderRow o indent cells := by
  cases cells with
  | nil => rfl
  | cons cell cells =>
      cases cell with
      | plain text marks =>
          unfold renderRow
          rw [renderRow_refusing ho indent cells h]
      | rich content marks =>
          rw [walkRow, List.forall_mem_append] at h
          unfold renderRow
          rw [renderNodes_refusing ho (indent + 1) [] content h.1,
            renderRow_refusing ho indent cells h.2]

end

/-- A rendering never comes to a node outside the walk: a hook that would refuse such nodes only
    changes nothing. -/
theorem renderContent_refusing (ho : o.overrideNode = none) (indent : Int) (nodes : List Node)
    (h : ∀ node ∈ walk nodes, test node = false) :
    renderContent (o.refusing test fault) indent nodes = renderContent o indent nodes :=
  renderNodes_refusing ho indent [] nodes h

end

end Markdown

end PageDistill
