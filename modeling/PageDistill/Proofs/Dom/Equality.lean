import PageDistill.Dom.Element

/-!
# Comparing Pages

Equality of pages can be decided, so that a page which was read can be compared with the page
that it should be.

A node holds a list of nodes, so the comparison of nodes and that of lists of nodes call each
other, along the recursion of the tree.

## Main definitions

* `Node.decEq`, `decEqNodes`: Comparing nodes, and lists of nodes.
-/

namespace PageDistill

namespace Dom

mutual

/-- Comparing nodes. -/
def Node.decEq : (a b : Node) → Decidable (a = b)
  | .text content, .text content' =>
    decidable_of_iff (content = content') (by rw [Node.text.injEq])
  | .special kind content, .special kind' content' =>
    decidable_of_iff (kind = kind' ∧ content = content') (by rw [Node.special.injEq])
  | .element tag nodes, .element tag' nodes' =>
    match decEqNodes nodes nodes' with
    | isTrue h => decidable_of_iff (tag = tag') (by rw [Node.element.injEq, and_iff_left h])
    | isFalse h => isFalse fun heq => h (Node.element.inj heq).2
  | .text _, .special .. => isFalse nofun
  | .text _, .element .. => isFalse nofun
  | .special .., .text _ => isFalse nofun
  | .special .., .element .. => isFalse nofun
  | .element .., .text _ => isFalse nofun
  | .element .., .special .. => isFalse nofun

/-- Comparing lists of nodes. -/
def decEqNodes : (a b : List Node) → Decidable (a = b)
  | [], [] => isTrue rfl
  | [], _ :: _ => isFalse nofun
  | _ :: _, [] => isFalse nofun
  | node :: nodes, node' :: nodes' =>
    match node.decEq node', decEqNodes nodes nodes' with
    | isTrue h, isTrue hrest => isTrue (by rw [h, hrest])
    | isFalse h, _ => isFalse fun heq => h (List.cons.inj heq).1
    | _, isFalse hrest => isFalse fun heq => hrest (List.cons.inj heq).2

end

instance : DecidableEq Node := Node.decEq

deriving instance DecidableEq for Element, Document

end Dom

end PageDistill
