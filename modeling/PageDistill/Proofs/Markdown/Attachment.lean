import PageDistill.Markdown.FrontMatter
import PageDistill.Proofs.Markdown.Rewriting

/-!
# Metadata in a Tree

What a node of metadata does to the tree that it stands in.

It is read for the front matter, and it is nothing to everything else: no text is written for
it, it is no block that another block would be kept apart from, and it has no URL. So a tree
with metadata put before all of it, or after all of it, is written like the tree without, and
its references are the same. All that changes is the front matter (`Attach.renderPage_eq`).

## Main definitions

* `metadataIn`: The metadata in a tree, in document order.
* `Attach`: Putting metadata before or after a tree.

## Theorems

* `metadataOf_eq`: The metadata of a tree is the first in it.
* `metadataIn_map`, `metadataIn_rewrite`: A change of nodes and the metadata in a tree.
* `metadataIn_shorten`: Shortening URLs leaves the metadata as it is.
* `layOut_concat`, `layOut_lineEnds`: A node that is no block is laid out after all that is there.
* `Attach.renderPage_eq`: A tree with metadata attached is rendered as the front matter and the
  tree.
-/

namespace PageDistill

namespace Text

theorem trimEndBy_append (p : Char → Bool) (s t : List Char) :
    trimEndBy p (s ++ trimEndBy p t) = trimEndBy p (s ++ t) := by
  have hdrop : ∀ back front : List Char,
      ((back.dropWhile p) ++ front).dropWhile p = (back ++ front).dropWhile p := by
    intro back front
    induction back with
    | nil => rfl
    | cons c rest ih =>
        by_cases hc : p c = true
        · rw [List.dropWhile_cons, if_pos hc, ih, List.cons_append, List.dropWhile_cons, if_pos hc]
        · rw [List.dropWhile_cons, if_neg hc]
  rw [trimEndBy, trimEndBy, trimEndBy, List.reverse_append, List.reverse_append,
    List.reverse_reverse, hdrop]

/-- What was trimmed may be trimmed again with more in front of it. -/
theorem trimEnd_append_trimEnd (s t : List Char) : trimEnd (s ++ trimEnd t) = trimEnd (s ++ t) :=
  trimEndBy_append isBlank s t

/-- Blank space at the end is trimmed. -/
theorem trimEnd_append_of_blank (s t : List Char) (h : isAllBlank t = true) :
    trimEnd (s ++ t) = trimEnd s := by
  have hnil : trimEnd t = [] :=
    (trimEndBy_eq_nil_iff isBlank t).mpr (List.all_eq_true.mp h)
  rw [← trimEnd_append_trimEnd, hnil, List.append_nil]

end Text

namespace Markdown

/-- The metadata in a tree, in document order. -/
def metadataIn (nodes : List Node) : List Metadata := (walk nodes).filterMap Node.metadata?

/-- The metadata of a tree is the first in it. -/
theorem metadataOf_eq (nodes : List Node) :
    metadataOf nodes = (metadataIn nodes).head?.getD Metadata.empty := by
  rw [metadataOf, metadataIn, List.head?_filterMap]

/-- Trees with the same first metadata have the same front matter. -/
theorem frontMatter_congr (mode : MetadataChoice) {nodes nodes' : List Node}
    (h : metadataOf nodes = metadataOf nodes') :
    frontMatter mode nodes = frontMatter mode nodes' := by
  rw [frontMatter, frontMatter, h]

theorem metadataIn_append (a b : List Node) :
    metadataIn (a ++ b) = metadataIn a ++ metadataIn b := by
  rw [metadataIn, walk_append, List.filterMap_append]
  rfl

/-- What a node holds is in it or in its children. -/
theorem metadataIn_cons (node : Node) (nodes : List Node) :
    metadataIn (node :: nodes) =
      node.metadata?.toList ++ metadataIn node.children ++ metadataIn nodes := by
  rw [metadataIn, walk, Node.walk_eq, List.filterMap_append]
  cases node <;> rfl

theorem metadataIn_singleton (node : Node) (h : node.metadata? = none) :
    metadataIn [node] = metadataIn node.children := by
  rw [metadataIn_cons, h]
  exact List.append_nil _

/-- Items without metadata have none together. -/
theorem metadataIn_flatten (items : List (List Node)) (h : ∀ item ∈ items, metadataIn item = []) :
    metadataIn items.flatten = [] := by
  induction items with
  | nil => rfl
  | cons item rest ih =>
      rw [List.flatten_cons, metadataIn_append, h item List.mem_cons_self,
        ih fun other hmem => h other (List.mem_cons_of_mem item hmem)]
      rfl

/-- A change of nodes that goes on below each of them changes the metadata in a tree one by one. It
    may stop at a node if the metadata below is as it should be. -/
theorem metadataIn_map {f : Node → Node} {g : Metadata → Metadata}
    (hown : ∀ node, (f node).metadata? = node.metadata?.map g)
    (hbelow : ∀ node, (f node).children = node.children.map f ∨
      metadataIn (f node).children = (metadataIn node.children).map g) (nodes : List Node) :
    metadataIn (nodes.map f) = (metadataIn nodes).map g := by
  -- Both what is below the first node and the rest have a shorter walk than the tree.
  induction hlength : (walk nodes).length using Nat.strongRecOn generalizing nodes with
  | ind n ih =>
    cases nodes with
    | nil => rfl
    | cons node rest =>
        rw [walk_cons, List.length_cons, List.length_append] at hlength
        have hchildren : metadataIn (f node).children = (metadataIn node.children).map g := by
          rcases hbelow node with heq | hkept
          · rw [heq]
            exact ih _ (by omega) node.children rfl
          · exact hkept
        have hrest := ih _ (by omega) rest rfl
        rw [List.map_cons, metadataIn_cons, metadataIn_cons, hown, hchildren, hrest,
          List.map_append, List.map_append, Option.toList_map]

/-- So a tree that is rewritten has the metadata of its nodes, as the rewriting changes it. -/
theorem metadataIn_rewrite {f : Node → Node} {g : Metadata → Metadata}
    (hown : ∀ node, (f node).metadata? = node.metadata?.map g)
    (hchildren : ∀ node, (f node).children = node.children) (nodes : List Node) :
    metadataIn (rewrite f nodes) = (metadataIn nodes).map g := by
  rw [rewrite_eq]
  refine metadataIn_map (fun node => ?_) (fun node => Or.inl ?_) nodes
  · cases node <;> exact hown _
  · exact Node.children_rewrite hchildren node

/-- Shortening URLs leaves the metadata as it is. -/
theorem metadataIn_shorten (state : Url.Shortening) (nodes : List Node) :
    metadataIn (Url.shorten state nodes).1 = metadataIn nodes := by
  have hblank : ∀ nodes, metadataIn (rewrite Url.withoutAddress nodes) = metadataIn nodes := by
    intro nodes
    rw [metadataIn_rewrite (g := id) (fun node => ?_) (fun node => ?_), List.map_id]
    · cases node <;> rfl
    · cases node <;> rfl
  rw [← hblank, Url.rewrite_shorten, hblank]

/-- A pass over two trees goes on with the second where the first left it. -/
theorem shorten_append (state : Url.Shortening) (a b : List Node) :
    Url.shorten state (a ++ b) =
      ((Url.shorten state a).1 ++ (Url.shorten (Url.shorten state a).2 b).1,
        (Url.shorten (Url.shorten state a).2 b).2) := by
  induction a generalizing state with
  | nil => rfl
  | cons node rest ih => simp only [List.cons_append, Url.shorten, ih]

/-- A node that is no block is laid out after all that is there: no block before it is kept
    apart from it. -/
theorem layOut_concat (indent : Int) (out : List Char) (nodes : List Node) (last : Node)
    (hlast : last.isBlock = false) :
    layOut indent out (nodes ++ [last]) =
      place last [] (layOut indent out nodes) (last.block indent) := by
  induction nodes generalizing out with
  | nil => rfl
  | cons node rest ih =>
      have happart : isApart node (rest ++ [last]) = isApart node rest := by
        unfold isApart
        cases rest with
        | nil => simp only [List.nil_append, hlast]
        | cons next others => rfl
      rw [List.cons_append, layOut, layOut, ih]
      unfold place
      rw [happart]

/-- Line ends after a tree are written as they are. -/
theorem layOut_lineEnds (indent : Int) (out : List Char) (nodes : List Node) :
    layOut indent out (nodes ++ [.text "\n\n"]) = layOut indent out nodes ++ ['\n', '\n'] := by
  have hspace : ∀ before, needsSpace before ['\n', '\n'] = false := by
    intro before
    unfold needsSpace
    cases before.getLast? with
    | none => rfl
    | some last => simp [show Text.isBlank '\n' = true from by decide]
  rw [layOut_concat indent out nodes _ rfl]
  change appendInline _ ['\n', '\n'] = _
  rw [appendInline, hspace]
  rfl

/-- Putting metadata before a tree, or after it. -/
inductive Attach (m : Metadata) : (List Node → List Node) → Prop where
  | before : Attach m fun nodes => .metadata m :: nodes
  | after : Attach m fun nodes => nodes ++ [.metadata m]

namespace Attach

variable {m : Metadata} {attach : List Node → List Node} (h : Attach m attach)

include h

theorem layOut_eq (indent : Int) (nodes : List Node) :
    layOut indent [] (attach nodes) = layOut indent [] nodes := by
  cases h with
  | before => rfl
  | after => exact layOut_concat indent [] nodes (.metadata m) rfl

/-- Attached metadata stays attached, since it has no URLs. -/
theorem shorten_eq (state : Url.Shortening) (nodes : List Node) :
    Url.shorten state (attach nodes) =
      (attach (Url.shorten state nodes).1, (Url.shorten state nodes).2) := by
  cases h with
  | before => rfl
  | after =>
      rw [shorten_append]
      rfl

/-- Attached metadata is what a tree without metadata tells. -/
theorem metadataOf_eq (nodes : List Node) (hnone : metadataIn nodes = []) :
    metadataOf (attach nodes) = m := by
  rw [Markdown.metadataOf_eq]
  cases h with
  | before =>
      rw [metadataIn_cons]
      rfl
  | after =>
      rw [metadataIn_append, hnone]
      rfl

/-- A tree with metadata attached is rendered as the front matter and then the tree. -/
theorem renderPage_eq {o : Options} (ho : o.WithoutNodeHooks) (indent : Int) (nodes : List Node)
    (hnone : metadataIn nodes = []) :
    renderPage o indent (attach nodes) =
      .ok (Text.trimEnd (frontMatter o.metadata [.metadata m] ++ layOut indent [] nodes)) := by
  have hblock : frontMatter o.metadata (attach nodes) = frontMatter o.metadata [.metadata m] :=
    frontMatter_congr o.metadata (h.metadataOf_eq nodes hnone)
  rw [renderPage_unhooked ho, h.layOut_eq, hblock]

end Attach

end Markdown

end PageDistill
