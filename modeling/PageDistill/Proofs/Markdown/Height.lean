import Mathlib.Logic.Function.Iterate
import PageDistill.Markdown.Walk
import PageDistill.Proofs.Markdown.TableLines

/-!
# The Height of a Tree

How deep a semantic tree is nested, and how deep its rendering recurses.

A node without contents has height one, and every other node is one higher than the highest
node of its contents. The items of a list and the rows and cells of a table are no nodes, so
they do not count; what they hold does.

To render a node is to render its contents by themselves, as often as there are lists of
contents, and to put something around them. `renderingStep` is what is done for one list of
nodes, with the rendering of contents as a parameter. A rendering of all levels is that step
repeated, and `layOut_eq_iterate` says how often: for nodes that are less high than `n`, `n`
times is enough, and what would be rendered below that has no part in the text. So a bound on
the height bounds the recursion.

## Main definitions

* `Node.height`, `heightOf`: The height of a node, and the greatest height of some nodes.
* `Node.blockWith`: What is written for a node when the rendering of contents is given.
* `renderingStep`: What is written for a list of nodes then.

## Theorems

* `heightOf_le_iff`: A bound on the greatest height is a bound on every height.
* `Node.height_eq`: A node is one higher than what lies directly below it.
* `height_le_of_mem_walk`: What lies below a node is not higher.
* `layOut_eq_iterate`: Rendering is a step that is repeated once for each level.
-/

namespace PageDistill

namespace Markdown

mutual

/-- The number of nodes on the longest way down from a node, the node included. -/
def Node.height : Node → Nat
  | .emphasis _ content => heightOf content + 1
  | .link _ content => heightOf content + 1
  | .heading _ content => heightOf content + 1
  | .list _ items => heightOfItems items + 1
  | .table rows _ => heightOfRows rows + 1
  | .quote content => heightOf content + 1
  | .semantic _ content => heightOf content + 1
  | .listItem content => heightOf content + 1
  | _ => 1

/-- The greatest height of some nodes. -/
def heightOf : List Node → Nat
  | [] => 0
  | node :: nodes => max node.height (heightOf nodes)

/-- The greatest height in the contents of items. -/
def heightOfItems : List (List Node) → Nat
  | [] => 0
  | item :: items => max (heightOf item) (heightOfItems items)

/-- The greatest height in the cells of rows. -/
def heightOfRows : List (List Cell) → Nat
  | [] => 0
  | row :: rows => max (heightOfRow row) (heightOfRows rows)

/-- The greatest height in the cells of a row. -/
def heightOfRow : List Cell → Nat
  | [] => 0
  | .plain .. :: cells => heightOfRow cells
  | .rich content _ :: cells => max (heightOf content) (heightOfRow cells)

end

/-- A bound on the greatest height is a bound on every height. -/
theorem heightOf_le_iff (nodes : List Node) (n : Nat) :
    heightOf nodes ≤ n ↔ ∀ node ∈ nodes, node.height ≤ n := by
  induction nodes with
  | nil => simp [heightOf]
  | cons node nodes ih => rw [heightOf, Nat.max_le, ih, List.forall_mem_cons]

/-- Nodes in a row are as high as the highest of them. -/
theorem heightOf_append (a b : List Node) : heightOf (a ++ b) = max (heightOf a) (heightOf b) := by
  induction a with
  | nil => simp [heightOf]
  | cons node nodes ih => rw [List.cons_append, heightOf, heightOf, ih, Nat.max_assoc]

theorem heightOfItems_eq (items : List (List Node)) :
    heightOfItems items = heightOf items.flatten := by
  induction items with
  | nil => rfl
  | cons item items ih => rw [heightOfItems, ih, List.flatten_cons, heightOf_append]

theorem heightOfRow_eq (cells : List Cell) :
    heightOfRow cells = heightOf (cells.flatMap Cell.content) := by
  induction cells with
  | nil => rfl
  | cons cell cells ih =>
      rw [List.flatMap_cons, heightOf_append, ← ih]
      cases cell with
      | plain text marks => simp [heightOfRow, Cell.content, heightOf]
      | rich content marks => rfl

theorem heightOfRows_eq (rows : List (List Cell)) :
    heightOfRows rows = heightOf (rows.flatten.flatMap Cell.content) := by
  induction rows with
  | nil => rfl
  | cons row rows ih =>
      rw [heightOfRows, ih, heightOfRow_eq, List.flatten_cons, List.flatMap_append,
        heightOf_append]

/-- A node is one higher than what lies directly below it. -/
theorem Node.height_eq (node : Node) : node.height = heightOf node.children + 1 := by
  cases node with
  | list ordered items => rw [Node.height, heightOfItems_eq, Node.children]
  | table rows colIds => rw [Node.height, heightOfRows_eq, Node.children]
  | _ => rfl

/-- Some of what lies directly below a node is less high than the node. -/
theorem heightOf_lt_of_subset_children {node : Node} {content : List Node}
    (h : content ⊆ node.children) : heightOf content < node.height := by
  have hbelow := (heightOf_le_iff node.children _).mp (Nat.le_refl _)
  rw [Node.height_eq, Nat.lt_succ_iff, heightOf_le_iff]
  exact fun child hchild => hbelow child (h hchild)

/-- What lies below a node is not higher than the node. -/
theorem Node.height_le_of_mem_walk {node d : Node} (hd : d ∈ node.walk) :
    d.height ≤ node.height := by
  induction hheight : node.height using Nat.strongRecOn generalizing node with
  | ind n ih =>
    rw [Node.walk_eq, walk_eq_flatMap, List.mem_cons, List.mem_flatMap] at hd
    rcases hd with rfl | ⟨child, hchild, hd⟩
    · exact Nat.le_of_eq hheight
    · have hle := (heightOf_le_iff node.children _).mp (Nat.le_refl _) child hchild
      have hlt : child.height < n := by
        rw [← hheight, node.height_eq]
        exact Nat.lt_succ_of_le hle
      exact Nat.le_of_lt (Nat.lt_of_le_of_lt (ih child.height hlt hd rfl) hlt)

/-- What lies below some nodes is not higher than a bound on these. -/
theorem height_le_of_mem_walk {nodes : List Node} {n : Nat}
    (h : ∀ node ∈ nodes, node.height ≤ n) : ∀ d ∈ walk nodes, d.height ≤ n := by
  intro d hd
  rw [walk_eq_flatMap, List.mem_flatMap] at hd
  rcases hd with ⟨node, hnode, hd⟩
  exact Nat.le_trans (Node.height_le_of_mem_walk hd) (h node hnode)

section

variable (render : Int → List Node → List Char)

/-- The pieces of a cell, given the rendering of its content. -/
def Cell.piecesWith (indent : Int) : Cell → List (List Char)
  | .plain text marks => cellPieces marks text.toList
  | .rich content marks => cellPieces marks (Text.trim (render (indent + 1) content))

/-- What is written for a node by itself, given the rendering of lists of contents. Nodes
    without contents are written as they are. -/
def Node.blockWith (indent : Int) : Node → List Char
  | .emphasis style content => style.mark ++ Text.trim (render indent content) ++ style.mark
  | .link href content =>
    match shortLink? href content with
    | some short => short
    | none => longLink href (Text.trim (render (indent + 1) content))
  | .heading level content => headingLine level (Text.trim (render indent content))
  | .list ordered items =>
    Text.joinWith ['\n'] (items.mapIdx fun index item =>
      itemLine indent ordered (index + 1) (Text.trim (render (indent + 1) item)))
  | .table rows _ =>
    if tableWidth rows = 0 then []
    else
      Text.joinWith ['\n'] (rows.map fun row =>
        tableLine (tableWidth rows) row (row.flatMap (Cell.piecesWith render indent)))
  | .quote content => quoteText (Text.trim (render indent content))
  | .semantic element content => semanticText element (Text.trim (render indent content))
  | node => node.block indent

/-- What stands there after nodes are written to it, given the rendering of contents. -/
def layOutWith (indent : Int) (out : List Char) : List Node → List Char
  | [] => out
  | node :: rest =>
    layOutWith indent (place node rest out (node.blockWith render indent)) rest

/-- What is written for a list of nodes, given the rendering of contents: one level of a
    rendering. -/
def renderingStep (indent : Int) (nodes : List Node) : List Char :=
  layOutWith render indent [] nodes

end

theorem itemLines_eq_mapIdx (indent : Int) (ordered : Bool) (number : Nat)
    (items : List (List Node)) :
    itemLines indent ordered number items = items.mapIdx fun index item =>
      itemLine indent ordered (index + number) (Text.trim (layOut (indent + 1) [] item)) := by
  induction items generalizing number with
  | nil => rfl
  | cons item items ih =>
      rw [itemLines, ih, List.mapIdx_cons, Nat.zero_add]
      refine congrArg (_ :: ·) (congrArg (List.mapIdx · items) (funext fun index => ?_))
      rw [Nat.add_assoc, Nat.add_comm 1 number]

section

variable {render : Int → List Node → List Char}

/-- The pieces of a row, when the contents of its cells are rendered as they should be. -/
theorem flatMap_piecesWith (indent : Int) (row : List Cell)
    (h : ∀ cell ∈ row, render (indent + 1) cell.content = layOut (indent + 1) [] cell.content) :
    row.flatMap (Cell.piecesWith render indent) = rowPieces indent row := by
  induction row with
  | nil => rfl
  | cons cell cells ih =>
      rw [List.flatMap_cons, ih fun c hc => h c (List.mem_cons_of_mem cell hc)]
      cases cell with
      | plain text marks => rfl
      | rich content marks =>
          have hcontent := h _ List.mem_cons_self
          rw [Cell.content] at hcontent
          rw [Cell.piecesWith, hcontent, rowPieces]

/-- If contents are rendered as they should be, as far as they are less high than a node, the
    node is written as it should be. -/
theorem Node.blockWith_eq (node : Node)
    (h : ∀ indent content, heightOf content < node.height →
      render indent content = layOut indent [] content) (indent : Int) :
    node.blockWith render indent = node.block indent := by
  -- Whatever is rendered below is lower than the node.
  have hpart := fun indent content (hsub : content ⊆ node.children) =>
    h indent content (heightOf_lt_of_subset_children hsub)
  cases node with
  | emphasis _ content | heading _ content | quote content | semantic _ content =>
      rw [Node.blockWith, Node.block, hpart _ content (List.Subset.refl _)]
  | link href content =>
      rewrite [Node.blockWith, Node.block, hpart _ content (List.Subset.refl _)]
      cases shortLink? href content <;> rfl
  | list ordered items =>
      rw [Node.blockWith, Node.block, itemLines_eq_mapIdx]
      refine congrArg (Text.joinWith _) (List.ext_getElem (by simp) fun index hindex _ => ?_)
      rw [List.getElem_mapIdx, List.getElem_mapIdx, hpart]
      exact fun child hchild => List.mem_flatten.mpr ⟨_, List.getElem_mem _, hchild⟩
  | table rows colIds =>
      rw [Node.blockWith, Node.block, rowLines_eq_map]
      refine congrArg _ (congrArg (Text.joinWith _) (List.map_congr_left fun row hrow => ?_))
      rw [flatMap_piecesWith]
      intro cell hcell
      refine hpart _ _ fun child hchild => List.mem_flatMap.mpr ⟨cell, ?_, hchild⟩
      exact List.mem_flatten.mpr ⟨row, hrow, hcell⟩
  | _ => rfl

/-- Nodes are laid out alike if each is written alike by itself. -/
theorem layOutWith_eq (indent : Int) (out : List Char) (nodes : List Node)
    (h : ∀ node ∈ nodes, node.blockWith render indent = node.block indent) :
    layOutWith render indent out nodes = layOut indent out nodes := by
  induction nodes generalizing out with
  | nil => rfl
  | cons node rest ih =>
      rw [layOutWith, layOut, h node List.mem_cons_self,
        ih _ fun other hother => h other (List.mem_cons_of_mem node hother)]

end

/-- Rendering is a step that is repeated. For nodes less high than `n` it is enough to repeat it
    `n` times, whatever is put in the place of a rendering that goes deeper. -/
theorem layOut_eq_iterate (deeper : Int → List Node → List Char) (n : Nat) (indent : Int)
    (nodes : List Node) (h : heightOf nodes < n) :
    renderingStep^[n] deeper indent nodes = layOut indent [] nodes := by
  induction n generalizing indent nodes with
  | zero => exact absurd h (Nat.not_lt_zero _)
  | succ n ih =>
      rw [Function.iterate_succ_apply']
      refine layOutWith_eq indent [] nodes fun node hnode => ?_
      have hheight := (heightOf_le_iff nodes n).mp (Nat.lt_succ_iff.mp h) node hnode
      exact node.blockWith_eq (fun indent content hcontent =>
        ih indent content (Nat.lt_of_lt_of_le hcontent hheight)) indent

end Markdown

end PageDistill
