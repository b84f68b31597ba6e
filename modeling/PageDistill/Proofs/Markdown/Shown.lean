import PageDistill.Proofs.Markdown.TextKept

/-!
# What Shows in a Rendering

Which trees are written as nothing but blank.

Most nodes show whatever is in them: the marks of emphasis, the brackets of a link, the marker of
an item and the pipes of a table are there for empty contents too. A text shows if it is not
blank, and a semantic element only if something in it does. So whether anything shows can be read
off a tree without writing it (`showsAny`), and it does not depend on the indent level.

## Main definitions

* `Node.shows`, `showsAny`: Whether anything shows of a node, and of nodes.

## Theorems

* `visible_layOut`: What shows of nodes shows of one of them.
* `visible_block_eq_nil_iff`, `visible_layOut_eq_nil_iff`: Nothing shows of nodes exactly if none of
  them shows.
* `renderContent_blank_iff`: When a rendering without hooks is blank.
-/

namespace PageDistill

namespace Markdown

open Text (visible visible_ne_nil)

mutual

/-- Whether anything is seen of a node. -/
def Node.shows : Node → Bool
  | .text content => !Text.isAllBlank content.toList
  | .emphasis .. => true
  | .link .. => true
  | .heading level content => decide (0 < level) || showsAny content
  | .image src alt => !(imageText src alt).isEmpty
  | .video .. => true
  | .list _ items => !items.isEmpty
  | .table rows _ => tableWidth rows != 0
  | .code .. => true
  | .quote _ => true
  | .semantic _ content => showsAny content
  | _ => false

/-- Whether anything is seen of some nodes. -/
def showsAny : List Node → Bool
  | [] => false
  | node :: nodes => node.shows || showsAny nodes

end

theorem showsAny_append (nodes more : List Node) :
    showsAny (nodes ++ more) = (showsAny nodes || showsAny more) := by
  induction nodes with
  | nil => rfl
  | cons node nodes ih => rw [List.cons_append, showsAny, showsAny, ih, Bool.or_assoc]

theorem showsAny_singleton (node : Node) : showsAny [node] = node.shows := Bool.or_false _

/-- What shows of nodes is what shows of each of them. -/
theorem visible_layOut (indent : Int) (out : List Char) (nodes : List Node) :
    visible (layOut indent out nodes) =
      visible out ++ nodes.flatMap fun node => visible (node.block indent) := by
  induction nodes generalizing out with
  | nil => exact (List.append_nil _).symm
  | cons node rest ih =>
      rw [layOut, ih, visible_place_block, List.flatMap_cons, List.append_assoc]

theorem visible_mark_ne_nil (style : Emphasis) (rest : List Char) :
    visible (style.mark ++ rest) ≠ [] := by
  cases style
  · exact visible_ne_nil '*' (by simp [Emphasis.mark]) (by decide)
  · exact visible_ne_nil '*' (by simp [Emphasis.mark]) (by decide)
  · exact visible_ne_nil '~' (by simp [Emphasis.mark]) (by decide)

theorem visible_linkText_ne_nil (href : String) (content : List Node) (inner : List Char) :
    visible (match shortLink? href content with
      | some text => text
      | none => longLink href inner) ≠ [] := by
  cases hshort : shortLink? href content with
  | none => exact visible_ne_nil '<' List.mem_cons_self (by decide)
  | some text =>
      rcases shortLink?_eq_some href content text hshort with ⟨only, _, rfl⟩
      exact visible_ne_nil '[' List.mem_cons_self (by decide)

/-- A heading shows unless it has neither a level nor a text. -/
theorem visible_headingLine_eq_nil_iff (level : Int) (inner : List Char) :
    visible (headingLine level inner) = [] ↔ ¬ 0 < level ∧ visible inner = [] := by
  unfold headingLine
  rw [Text.visible_append, List.append_eq_nil_iff, Text.visible_space]
  refine and_congr_left fun _ => ⟨fun h hlevel => ?_, fun h => ?_⟩
  · exact visible_ne_nil '#' (List.mem_replicate.mpr ⟨by omega, rfl⟩) (by decide) h
  · rw [show level.toNat = 0 by omega]
    rfl

/-- An image shows if it is written. -/
theorem visible_imageText_eq_nil_iff (src : String) (alt : Option String) :
    visible (imageText src alt) = [] ↔ (imageText src alt).isEmpty = true := by
  constructor
  · intro h
    unfold imageText at h ⊢
    simp only at h ⊢
    by_cases hmissing : !(Text.trimBy isAltTrim (alt.getD "").toList).isEmpty ∧ src = ""
    · rw [if_pos hmissing]
      rfl
    · rw [if_neg hmissing] at h
      exact absurd h (visible_ne_nil '!' List.mem_cons_self (by decide))
  · intro h
    rw [List.isEmpty_iff.mp h]
    rfl

theorem visible_videoText_ne_nil (src : Dom.AttrValue) (poster : Option String)
    (controls : Option Bool) : visible (videoText src poster controls) ≠ [] := by
  unfold videoText
  simp only
  rw [Text.visible_joinWith ['\n'] (by decide), List.flatMap_cons]
  exact List.append_ne_nil_of_left_ne_nil (visible_ne_nil '!' List.mem_cons_self (by decide)) _

theorem visible_code_ne_nil (content : String) (language : Option String) (inline : Bool) :
    visible (if inline then inlineCode content else codeBlock content language) ≠ [] := by
  cases inline <;> exact visible_ne_nil graveAccent List.mem_cons_self (by decide)

/-- A quote shows its mark. -/
theorem visible_quoteText_ne_nil (inner : List Char) : visible (quoteText inner) ≠ [] := by
  unfold quoteText
  by_cases hempty : inner.isEmpty = true
  · rw [if_pos hempty]
    exact visible_ne_nil '>' List.mem_cons_self (by decide)
  · rw [if_neg hempty, Text.visible_joinWith ['\n'] (by decide), List.flatMap_map]
    -- There is a first line, with its mark.
    cases hlines : Text.splitOn '\n' inner with
    | nil => exact absurd hlines (Text.splitOn_ne_nil '\n' inner)
    | cons line lines =>
        rw [List.flatMap_cons, Text.visible_trimEnd]
        exact List.append_ne_nil_of_left_ne_nil
          (visible_ne_nil '>' List.mem_cons_self (by decide)) _

theorem visible_itemLine_ne_nil (indent : Int) (ordered : Bool) (number : Nat)
    (inner : List Char) : visible (itemLine indent ordered number inner) ≠ [] := by
  have hmarker : visible (if ordered then Number.naturalText number ++ ['.'] else ['-']) ≠ [] := by
    cases ordered with
    | true => exact visible_ne_nil '.' (List.mem_append_right _ List.mem_cons_self) (by decide)
    | false => exact visible_ne_nil '-' List.mem_cons_self (by decide)
  unfold itemLine
  by_cases hempty : inner.isEmpty = true
  · simp only [if_pos hempty, Text.visible_append]
    exact List.append_ne_nil_of_right_ne_nil _ hmarker
  · simp only [if_neg hempty, Text.visible_append]
    exact List.append_ne_nil_of_left_ne_nil (List.append_ne_nil_of_right_ne_nil _ hmarker) _

theorem visible_items_eq_nil_iff (indent : Int) (ordered : Bool) (items : List (List Node)) :
    visible (Text.joinWith ['\n'] (itemLines indent ordered 1 items)) = [] ↔
      items.isEmpty = true := by
  rw [Text.visible_joinWith ['\n'] (by decide)]
  cases items with
  | nil => exact iff_of_true rfl rfl
  | cons item items =>
      refine iff_of_false ?_ Bool.false_ne_true
      rw [itemLines, List.flatMap_cons]
      exact List.append_ne_nil_of_left_ne_nil (visible_itemLine_ne_nil _ _ _ _) _

/-- A table shows if it has a column. -/
theorem visible_table_eq_nil_iff (indent : Int) (rows : List (List Cell)) :
    visible (if tableWidth rows = 0 then []
      else Text.joinWith ['\n'] (rowLines indent (tableWidth rows) rows)) = [] ↔
        tableWidth rows = 0 := by
  by_cases hwidth : tableWidth rows = 0
  · rw [if_pos hwidth]
    exact iff_of_true rfl hwidth
  · rw [if_neg hwidth, Text.visible_joinWith ['\n'] (by decide)]
    refine iff_of_false ?_ hwidth
    cases rows with
    | nil => exact absurd rfl hwidth
    | cons row rows =>
        rw [rowLines, List.flatMap_cons]
        exact List.append_ne_nil_of_left_ne_nil
          (visible_ne_nil '|' List.mem_cons_self (by decide)) _

/-- What is written in a semantic element is trimmed, so it is empty if nothing of it shows. -/
theorem visible_semanticText_eq_nil_iff (element : String) (s : List Char) :
    visible (semanticText element (Text.trim s)) = [] ↔ visible s = [] := by
  constructor
  · intro h
    have hsub := visible_sublist_semanticText element (Text.trim s)
    rw [h, Text.visible_trim] at hsub
    exact List.sublist_nil.mp hsub
  · intro h
    have hblank := (Text.visible_eq_nil_iff s).mp h
    have hempty : Text.trim s = [] := (Text.trim_eq_nil_iff s).mpr hblank
    rw [hempty]
    rfl

mutual

/-- Nothing is seen of a node that does not show, and only of such a node. -/
theorem visible_block_eq_nil_iff (indent : Int) (node : Node) :
    visible (node.block indent) = [] ↔ node.shows = false := by
  -- Marks, links, code and quotes always show. The others show if what is in them does.
  cases node with
  | text content =>
      rw [Node.block, Node.shows, Text.visible_eq_nil_iff, Bool.not_eq_false']
  | emphasis style content =>
      rw [Node.block, Node.shows, List.append_assoc]
      exact iff_of_false (visible_mark_ne_nil style _) nofun
  | link href content =>
      rw [Node.block, Node.shows]
      exact iff_of_false (visible_linkText_ne_nil href content _) nofun
  | heading level content =>
      rw [Node.block, Node.shows, visible_headingLine_eq_nil_iff, Text.visible_trim,
        visible_layOut_eq_nil_iff indent content, Bool.or_eq_false_iff, decide_eq_false_iff_not]
  | image src alt =>
      rw [Node.block, Node.shows, visible_imageText_eq_nil_iff, Bool.not_eq_false']
  | video src poster controls =>
      rw [Node.block, Node.shows]
      exact iff_of_false (visible_videoText_ne_nil src poster controls) nofun
  | list ordered items =>
      rw [Node.block, Node.shows, visible_items_eq_nil_iff, Bool.not_eq_false']
  | table rows colIds =>
      rw [Node.block, Node.shows, visible_table_eq_nil_iff, bne_eq_false_iff_eq]
  | code content language inline =>
      rw [Node.block, Node.shows]
      exact iff_of_false (visible_code_ne_nil content language inline) nofun
  | quote content =>
      rw [Node.block, Node.shows]
      exact iff_of_false (visible_quoteText_ne_nil _) nofun
  | semantic element content =>
      rw [Node.block, Node.shows, visible_semanticText_eq_nil_iff,
        visible_layOut_eq_nil_iff indent content]
  | _ => exact iff_of_true rfl rfl

/-- Nothing is seen of nodes exactly if none of them shows. -/
theorem visible_layOut_eq_nil_iff (indent : Int) (nodes : List Node) :
    visible (layOut indent [] nodes) = [] ↔ showsAny nodes = false := by
  rw [visible_layOut, Text.visible_nil, List.nil_append]
  cases nodes with
  | nil => exact iff_of_true rfl rfl
  | cons node nodes =>
      have hrest := visible_layOut_eq_nil_iff indent nodes
      rw [visible_layOut, Text.visible_nil, List.nil_append] at hrest
      rw [List.flatMap_cons, List.append_eq_nil_iff, visible_block_eq_nil_iff indent node, hrest,
        showsAny, Bool.or_eq_false_iff]

end

/-- Without hooks nodes are written as a text that is blank exactly if none of them shows. -/
theorem renderContent_blank_iff {o : Options} (h : o.WithoutNodeHooks) (indent : Int)
    (nodes : List Node) :
    ∃ s, renderContent o indent nodes = .ok s ∧
      (Text.isAllBlank s = false ↔ showsAny nodes = true) := by
  refine ⟨_, renderNodes_unhooked h indent [] nodes, ?_⟩
  rw [← Text.visible_ne_nil_iff, Ne, visible_layOut_eq_nil_iff, Bool.not_eq_false]

end Markdown

end PageDistill
