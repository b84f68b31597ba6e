import PageDistill.Proofs.Markdown.Attachment

/-!
# Other Metadata in a Tree

What other metadata in the same places does to a tree.

Metadata is written in the front matter only. So a tree in which every node of metadata holds
something else is written like the tree, its URLs are shortened like those of the tree, and the
front matter is that of what the nodes hold now.

## Main definitions

* `onMetadata`: A change of metadata as a change of nodes.

## Theorems

* `layOut_onMetadata`: The content is the same.
* `shorten_onMetadata`: URLs are shortened alike.
* `metadataIn_onMetadata`, `metadataOf_onMetadata`: The metadata is the changed one.
-/

namespace PageDistill

namespace Markdown

/-- A change of metadata as a change of nodes. -/
def onMetadata (g : Metadata → Metadata) : Node → Node
  | .metadata m => .metadata (g m)
  | node => node

section

variable (g : Metadata → Metadata)

/-- Nothing is written for metadata in its place. -/
theorem unseen_onMetadata : Unseen (onMetadata g) where
  block node indent := by cases node <;> rfl
  isInline node := by cases node <;> rfl
  isBlock node := by cases node <;> rfl
  isSection node := by cases node <;> rfl
  isHeading node := by cases node <;> rfl
  text node content := by cases node <;> simp [onMetadata]

/-- The content of a tree does not depend on its metadata. -/
theorem layOut_onMetadata (indent : Int) (out : List Char) (nodes : List Node) :
    layOut indent out (rewrite (onMetadata g) nodes) = layOut indent out nodes :=
  layOut_rewrite (unseen_onMetadata g) indent out nodes

mutual

/-- A node of other metadata is passed over alike. -/
theorem shortenNode_onMetadata (state : Url.Shortening) (node : Node) :
    Url.shortenNode state (node.rewrite (onMetadata g)) =
      ((Url.shortenNode state node).1.rewrite (onMetadata g), (Url.shortenNode state node).2) := by
  -- The pass looks at addresses and the change at metadata, so they meet in no node.
  cases node with
  | emphasis style content =>
      change Url.shortenNode state (.emphasis style (rewrite _ content)) = _
      simp only [Url.shortenNode, shorten_onMetadata state content]
      rfl
  | link href content =>
      change Url.shortenNode state (.link href (rewrite _ content)) = _
      simp only [Url.shortenNode, shorten_onMetadata _ content]
      rfl
  | heading level content =>
      change Url.shortenNode state (.heading level (rewrite _ content)) = _
      simp only [Url.shortenNode, shorten_onMetadata state content]
      rfl
  | list ordered items =>
      change Url.shortenNode state (.list ordered (rewriteItems _ items)) = _
      simp only [Url.shortenNode, shortenItems_onMetadata state items]
      rfl
  | table rows colIds =>
      change Url.shortenNode state (.table (rewriteRows _ rows) colIds) = _
      simp only [Url.shortenNode, shortenRows_onMetadata state rows]
      rfl
  | quote content =>
      change Url.shortenNode state (.quote (rewrite _ content)) = _
      simp only [Url.shortenNode, shorten_onMetadata state content]
      rfl
  | semantic element content =>
      change Url.shortenNode state (.semantic element (rewrite _ content)) = _
      simp only [Url.shortenNode, shorten_onMetadata state content]
      rfl
  | listItem content =>
      change Url.shortenNode state (.listItem (rewrite _ content)) = _
      simp only [Url.shortenNode, shorten_onMetadata state content]
      rfl
  | _ => rfl

/-- Metadata has no URLs, so a pass leaves it where it is. -/
theorem shorten_onMetadata (state : Url.Shortening) (nodes : List Node) :
    Url.shorten state (rewrite (onMetadata g) nodes) =
      (rewrite (onMetadata g) (Url.shorten state nodes).1, (Url.shorten state nodes).2) := by
  cases nodes with
  | nil => rfl
  | cons node rest =>
      simp only [rewrite, Url.shorten, shortenNode_onMetadata state node, shorten_onMetadata _ rest]

theorem shortenItems_onMetadata (state : Url.Shortening) (items : List (List Node)) :
    Url.shortenItems state (rewriteItems (onMetadata g) items) =
      (rewriteItems (onMetadata g) (Url.shortenItems state items).1,
        (Url.shortenItems state items).2) := by
  cases items with
  | nil => rfl
  | cons item items =>
      simp only [rewriteItems, Url.shortenItems, shorten_onMetadata state item,
        shortenItems_onMetadata _ items]

theorem shortenRows_onMetadata (state : Url.Shortening) (rows : List (List Cell)) :
    Url.shortenRows state (rewriteRows (onMetadata g) rows) =
      (rewriteRows (onMetadata g) (Url.shortenRows state rows).1,
        (Url.shortenRows state rows).2) := by
  cases rows with
  | nil => rfl
  | cons row rows =>
      simp only [rewriteRows, Url.shortenRows, shortenRow_onMetadata state row,
        shortenRows_onMetadata _ rows]

theorem shortenRow_onMetadata (state : Url.Shortening) (cells : List Cell) :
    Url.shortenRow state (rewriteRow (onMetadata g) cells) =
      (rewriteRow (onMetadata g) (Url.shortenRow state cells).1,
        (Url.shortenRow state cells).2) := by
  cases cells with
  | nil => rfl
  | cons cell cells =>
      cases cell with
      | plain text marks =>
          simp only [rewriteRow, Url.shortenRow, shortenRow_onMetadata state cells]
      | rich content marks =>
          simp only [rewriteRow, Url.shortenRow, shorten_onMetadata state content,
            shortenRow_onMetadata _ cells]

end

/-- The metadata in the tree is the changed one, in the same order. -/
theorem metadataIn_onMetadata (nodes : List Node) :
    metadataIn (rewrite (onMetadata g) nodes) = (metadataIn nodes).map g := by
  refine metadataIn_rewrite (fun node => ?_) (fun node => ?_) nodes
  · cases node <;> rfl
  · cases node <;> rfl

/-- The metadata of the tree is the changed one, if what stands for none is left as it is. -/
theorem metadataOf_onMetadata (hempty : g Metadata.empty = Metadata.empty) (nodes : List Node) :
    metadataOf (rewrite (onMetadata g) nodes) = g (metadataOf nodes) := by
  rw [metadataOf_eq, metadataOf_eq, metadataIn_onMetadata]
  cases metadataIn nodes with
  | nil => exact hempty.symm
  | cons m rest => rfl

end

end Markdown

end PageDistill
