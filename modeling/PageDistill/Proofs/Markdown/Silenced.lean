import PageDistill.Proofs.Markdown.Attachment

/-!
# Silencing Every Text

What a rendering still tells under a hook that answers every text with nothing.

The hook on nodes is asked for a node before anything is written for it. If it answers every text
with the empty text, and leaves all other nodes to the rules, then what is written tells of a text
only where the hook was not asked for that text. There is one such place. A link with nothing but
one trimmed text on one line in it takes the short form, and the text goes straight into the
brackets (`renderContent_short_label`).

To say that nothing else is told, texts are covered: `cover` puts the same text in the place of
each, except below the links that it is told to spare. A covered tree is rendered as the tree is,
if the links in short form are spared (`renderNodes_cover`). So trees that look alike once all
other texts are covered are rendered alike, at any depth and by any rule, and where no link has
the short form that is any two trees with the same nodes around their texts.

## Main definitions

* `Silences`: A rule that answers every text with nothing.
* `Options.Silenced`: Options with such a hook.
* `cover`: A tree with its texts covered, except in some links.
* `inShortForm`: The links whose text is told without the hook.
* `coverAll`: A tree with all its texts covered.

## Theorems

* `renderNodes_cover`: The covered tree is rendered as the tree is.
* `metadataIn_cover`: Covering leaves the metadata as it is.
* `renderContent_silenced`: Which texts a silenced rendering depends on.
* `renderContent_short_label`: A text that the hook is not asked for.
-/

namespace PageDistill

open Markdown (Node Cell walk)

namespace Markdown

/-- Whether a node is a text. -/
def Node.isText : Node → Bool
  | .text _ => true
  | _ => false

/-- Whether a node was made up by a hook. -/
def Node.isCustom : Node → Bool
  | .custom _ => true
  | _ => false

end Markdown

/-- A rule answers every text with the empty text, and leaves all other nodes to others. -/
structure Silences (rule : NodeRule) : Prop where
  text : ∀ content indent, rule (.text content) indent = .ok (some "")
  other : ∀ node indent, node.isText = false → rule node indent = .ok none

/-- Options with a hook on nodes that silences every text when it is shown them. -/
def Options.Silenced (o : Options) : Prop :=
  ∃ rule, o.shownTo o.overrideNode = some rule ∧ Silences rule

namespace Markdown

/-- What is put in the place of a text: a text that never makes a short link. -/
def coverText : Node := .text "\n"

mutual

/-- A node with every text at it or below it covered. A link that is spared stays as it is. -/
def Node.cover (spare : String → List Node → Bool) : Node → Node
  | .text _ => coverText
  | .emphasis style content => .emphasis style (cover spare content)
  | .link href content =>
    .link href (if spare href content then content else cover spare content)
  | .heading level content => .heading level (cover spare content)
  | .list ordered items => .list ordered (coverItems spare items)
  | .table rows colIds => .table (coverRows spare rows) colIds
  | .quote content => .quote (cover spare content)
  | .semantic element content => .semantic element (cover spare content)
  | .listItem content => .listItem (cover spare content)
  | .tableRow cells => .tableRow (coverRow spare cells)
  | .tableCell cell => .tableCell (cell.cover spare)
  | node => node

/-- Nodes with every text covered, except in the links that are spared. -/
def cover (spare : String → List Node → Bool) : List Node → List Node
  | [] => []
  | node :: nodes => node.cover spare :: cover spare nodes

/-- The contents of items, covered. -/
def coverItems (spare : String → List Node → Bool) : List (List Node) → List (List Node)
  | [] => []
  | item :: items => cover spare item :: coverItems spare items

/-- The rows of a table with the contents of their cells covered. -/
def coverRows (spare : String → List Node → Bool) : List (List Cell) → List (List Cell)
  | [] => []
  | row :: rows => coverRow spare row :: coverRows spare rows

/-- The cells of a row with their contents covered. -/
def coverRow (spare : String → List Node → Bool) : List Cell → List Cell
  | [] => []
  | cell :: cells => cell.cover spare :: coverRow spare cells

/-- A cell with its contents covered. The text of a plain cell is no node. -/
def Cell.cover (spare : String → List Node → Bool) : Cell → Cell
  | .plain text marks => .plain text marks
  | .rich content marks => .rich (cover spare content) marks

end

/-- The links that take the short form. -/
def inShortForm (href : String) (content : List Node) : Bool := (shortLink? href content).isSome

/-- Nodes with every text covered, in whatever links. -/
abbrev coverAll : List Node → List Node := cover fun _ _ => false

/-- Every link in short form in some nodes is spared. -/
def SparesShort (spare : String → List Node → Bool) (walked : List Node) : Prop :=
  ∀ href content, .link href content ∈ walked → inShortForm href content = true →
    spare href content = true

section

variable {spare : String → List Node → Bool}

/-- Whatever is spared in a walk is spared in its parts. -/
theorem SparesShort.tail {node : Node} {nodes : List Node} (h : SparesShort spare (node :: nodes)) :
    SparesShort spare nodes :=
  fun href content hd => h href content (List.mem_cons_of_mem node hd)

theorem SparesShort.left {nodes others : List Node} (h : SparesShort spare (nodes ++ others)) :
    SparesShort spare nodes :=
  fun href content hd => h href content (List.mem_append_left others hd)

theorem SparesShort.right {nodes others : List Node} (h : SparesShort spare (nodes ++ others)) :
    SparesShort spare others :=
  fun href content hd => h href content (List.mem_append_right nodes hd)

/-- Covering turns no node into one that is placed in another way. -/
theorem isBlock_cover (node : Node) : (node.cover spare).isBlock = node.isBlock := by
  cases node <;> rfl

theorem isApart_cover (node : Node) (rest : List Node) :
    isApart (node.cover spare) (cover spare rest) = isApart node rest := by
  have hheading : (node.cover spare).isHeading = node.isHeading := by cases node <;> rfl
  unfold isApart
  rw [hheading]
  cases rest with
  | nil => rfl
  | cons next others => simp only [cover, isBlock_cover]

/-- A covered node is put among others as before. -/
theorem place_cover (node : Node) (rest : List Node) (out written : List Char) :
    place (node.cover spare) (cover spare rest) out written = place node rest out written := by
  have hinline : (node.cover spare).isInline = node.isInline := by cases node <;> rfl
  have hsection : (node.cover spare).isSection = node.isSection := by cases node <;> rfl
  unfold place
  rw [hinline, isBlock_cover, hsection, isApart_cover]

/-- A cell keeps its marks, so a row keeps its columns. -/
theorem rowWidth_coverRow (row : List Cell) : rowWidth (coverRow spare row) = rowWidth row := by
  induction row with
  | nil => rfl
  | cons cell cells ih =>
      have hmarks : (cell.cover spare).marks = cell.marks := by cases cell <;> rfl
      rw [coverRow, rowWidth, rowWidth, ih, hmarks]

theorem tableWidth_coverRows (rows : List (List Cell)) :
    tableWidth (coverRows spare rows) = tableWidth rows := by
  induction rows with
  | nil => rfl
  | cons row rows ih =>
      cases rows with
      | nil => exact rowWidth_coverRow row
      | cons next others =>
          change max (rowWidth (coverRow spare row))
              (tableWidth (coverRows spare (next :: others))) =
            max (rowWidth row) (tableWidth (next :: others))
          rw [ih, rowWidth_coverRow]

/-- The cover of a text makes no short link, and no other node does. -/
theorem shortLink?_cover (href : String) (content : List Node) :
    shortLink? href (cover spare content) = none := by
  cases content with
  | nil => rfl
  | cons node rest =>
      cases rest with
      | nil => cases node <;> rfl
      | cons next others => cases node <;> rfl

end

/-- A node that the hook leaves to the rules is rendered by itself and placed. -/
theorem renderNodes_unanswered {o : Options} {indent : Int} {node : Node}
    (hask : askNodeHook (o.shownTo o.overrideNode) node indent = .ok none)
    (hcustom : node.isCustom = false) (out : List Char) (rest : List Node) :
    renderNodes o indent out (node :: rest) =
      (node.body o indent >>= fun written =>
        renderNodes o indent (place node rest out written) rest) := by
  cases node with
  | custom payload => exact absurd hcustom.symm Bool.false_ne_true
  | code content language inline =>
      cases inline <;>
        simp [renderNodes, hask, bind, Except.bind, Node.body, place, Node.isInline, Node.isBlock]
  | _ =>
      simp [renderNodes, hask, bind, Except.bind, Node.body, place, Node.isInline, Node.isBlock]

section

variable {o : Options} {spare : String → List Node → Bool}

/-- The hook takes every text and nothing else. -/
theorem askNodeHook_text (ho : o.Silenced) (content : String) (indent : Int) :
    askNodeHook (o.shownTo o.overrideNode) (.text content) indent = .ok (some "") := by
  rcases ho with ⟨rule, hrule, hsilent⟩
  rw [hrule, askNodeHook]
  simp only [hsilent.text]

/-- The hook leaves every node but texts to the rules. -/
theorem askNodeHook_other (ho : o.Silenced) {node : Node} (indent : Int)
    (h : node.isText = false) : askNodeHook (o.shownTo o.overrideNode) node indent = .ok none := by
  rcases ho with ⟨rule, hrule, hsilent⟩
  rw [hrule, askNodeHook]
  simp only [hsilent.other node indent h]

mutual

/-- A covered tree is rendered as the tree is, if every link in short form is spared. -/
theorem renderNodes_cover (ho : o.Silenced) (indent : Int) (out : List Char)
    (nodes : List Node) (h : SparesShort spare (walk nodes)) :
    renderNodes o indent out (cover spare nodes) = renderNodes o indent out nodes := by
  cases nodes with
  | nil => rfl
  | cons node rest =>
      rw [walk] at h
      have hrest : ∀ out, renderNodes o indent out (cover spare rest) =
          renderNodes o indent out rest := fun out =>
        renderNodes_cover ho indent out rest h.right
      have hbody : node.isText = false → (node.cover spare).body o indent = node.body o indent :=
        body_cover ho indent node h.left
      have hask : ∀ {node : Node}, node.isText = false →
          askNodeHook (o.shownTo o.overrideNode) node indent = .ok none :=
        askNodeHook_other ho indent
      cases node with
      | text content =>
          -- Whatever the text is, the hook puts nothing in its place.
          rw [cover, Node.cover, coverText]
          unfold renderNodes
          rw [askNodeHook_text ho, askNodeHook_text ho]
          exact hrest _
      | custom payload =>
          change renderNodes o indent out (.custom payload :: cover spare rest) = _
          unfold renderNodes
          simp only [hrest]
      | _ =>
          rw [cover, renderNodes_unanswered (hask rfl) rfl, renderNodes_unanswered (hask rfl) rfl,
            hbody rfl]
          simp only [place_cover, hrest]

/-- A covered node is rendered by itself as before. -/
theorem body_cover (ho : o.Silenced) (indent : Int) (node : Node)
    (h : SparesShort spare node.walk) (htext : node.isText = false) :
    (node.cover spare).body o indent = node.body o indent := by
  -- The hook answers for every text, so what a text says has no part in the rest.
  cases node with
  | emphasis style content =>
      rw [Node.cover, Node.body, Node.body, renderNodes_cover ho indent [] content h.tail]
  | link href content =>
      rw [Node.cover]
      by_cases hspared : spare href content = true
      · rw [if_pos hspared]
      · -- A link that is not spared takes the long form, and so does its cover.
        have hlong : shortLink? href content = none :=
          Option.not_isSome_iff_eq_none.mp fun hshort =>
            hspared (h href content List.mem_cons_self hshort)
        rw [if_neg hspared, Node.body, Node.body, hlong, shortLink?_cover,
          renderNodes_cover ho (indent + 1) [] content h.tail]
  | heading level content =>
      rw [Node.cover, Node.body, Node.body, renderNodes_cover ho indent [] content h.tail]
  | list ordered items =>
      rw [Node.cover, Node.body, Node.body, renderItems_cover ho indent ordered 1 items h.tail]
  | table rows colIds =>
      rw [Node.cover, Node.body, Node.body, tableWidth_coverRows,
        renderRows_cover ho indent _ rows h.tail]
  | quote content =>
      rw [Node.cover, Node.body, Node.body, renderNodes_cover ho indent [] content h.tail]
  | semantic element content =>
      rw [Node.cover, Node.body, Node.body, renderNodes_cover ho indent [] content h.tail]
  | text content => exact absurd htext.symm Bool.false_ne_true
  | _ => rfl

theorem renderItems_cover (ho : o.Silenced) (indent : Int) (ordered : Bool) (number : Nat)
    (items : List (List Node)) (h : SparesShort spare (walkItems items)) :
    renderItems o indent ordered number (coverItems spare items) =
      renderItems o indent ordered number items := by
  cases items with
  | nil => rfl
  | cons item items =>
      rw [walkItems] at h
      rw [coverItems, renderItems, renderItems,
        renderNodes_cover ho (indent + 1) [] item h.left,
        renderItems_cover ho indent ordered (number + 1) items h.right]

theorem renderRows_cover (ho : o.Silenced) (indent : Int) (width : Int)
    (rows : List (List Cell)) (h : SparesShort spare (walkRows rows)) :
    renderRows o indent width (coverRows spare rows) = renderRows o indent width rows := by
  cases rows with
  | nil => rfl
  | cons row rows =>
      rw [walkRows] at h
      rw [coverRows, renderRows, renderRows,
        renderRow_cover ho indent row h.left,
        renderRows_cover ho indent width rows h.right]
      simp only [tableLine, rowWidth_coverRow]

theorem renderRow_cover (ho : o.Silenced) (indent : Int) (cells : List Cell)
    (h : SparesShort spare (walkRow cells)) :
    renderRow o indent (coverRow spare cells) = renderRow o indent cells := by
  cases cells with
  | nil => rfl
  | cons cell cells =>
      cases cell with
      | plain text marks =>
          rw [coverRow, Cell.cover, renderRow, renderRow, renderRow_cover ho indent cells h]
      | rich content marks =>
          rw [walkRow] at h
          rw [coverRow, Cell.cover, renderRow, renderRow,
            renderNodes_cover ho (indent + 1) [] content h.left,
            renderRow_cover ho indent cells h.right]

end

end

section

variable {spare : String → List Node → Bool}

/-- Nodes are covered one by one. -/
theorem cover_eq (nodes : List Node) : cover spare nodes = nodes.map (Node.cover spare) := by
  induction nodes with
  | nil => rfl
  | cons node rest ih => rw [cover, ih, List.map_cons]

theorem coverItems_eq (items : List (List Node)) :
    coverItems spare items = items.map (cover spare) := by
  induction items with
  | nil => rfl
  | cons item items ih => rw [coverItems, ih, List.map_cons]

theorem coverRow_eq (cells : List Cell) : coverRow spare cells = cells.map (Cell.cover spare) := by
  induction cells with
  | nil => rfl
  | cons cell cells ih => rw [coverRow, ih, List.map_cons]

theorem coverRows_eq (rows : List (List Cell)) :
    coverRows spare rows = rows.map (coverRow spare) := by
  induction rows with
  | nil => rfl
  | cons row rows ih => rw [coverRows, ih, List.map_cons]

/-- What is in a cell is covered node by node. -/
theorem Cell.content_cover (cell : Cell) :
    (cell.cover spare).content = cell.content.map (Node.cover spare) := by
  cases cell with
  | plain text marks => rfl
  | rich content marks => exact cover_eq content

/-- Covering goes on below every node but a link that is spared. -/
theorem Node.children_cover (node : Node) :
    (node.cover spare).children = node.children.map (Node.cover spare) ∨
      (node.cover spare).children = node.children := by
  cases node with
  | link href content =>
      rw [Node.cover]
      by_cases hspared : spare href content = true
      · rw [if_pos hspared]
        exact Or.inr rfl
      · rw [if_neg hspared]
        exact Or.inl (cover_eq content)
  | list ordered items =>
      refine Or.inl ?_
      rw [Node.cover, Node.children, Node.children, coverItems_eq, List.map_flatten,
        funext cover_eq]
  | table rows colIds =>
      refine Or.inl ?_
      rw [Node.cover, Node.children, Node.children, coverRows_eq, funext coverRow_eq,
        ← List.map_flatten, flatMap_content_map Cell.content_cover]
  | emphasis style content => exact Or.inl (cover_eq content)
  | heading level content => exact Or.inl (cover_eq content)
  | quote content => exact Or.inl (cover_eq content)
  | semantic element content => exact Or.inl (cover_eq content)
  | listItem content => exact Or.inl (cover_eq content)
  | _ => exact Or.inr rfl

/-- Covering leaves the metadata of a tree as it is. -/
theorem metadataIn_cover (nodes : List Node) :
    metadataIn (cover spare nodes) = metadataIn nodes := by
  rw [cover_eq, metadataIn_map (g := id) (fun node => ?_) (fun node => ?_), List.map_id]
  · cases node <;> rfl
  · refine (Node.children_cover node).imp_right fun hspared => ?_
    rw [hspared, List.map_id]

end

/-- A page is rendered as its cover is, with the same front matter. -/
theorem renderPage_cover {o : Options} (ho : o.Silenced) {spare : String → List Node → Bool}
    (indent : Int) (nodes : List Node) (h : SparesShort spare (walk nodes)) :
    renderPage o indent (cover spare nodes) = renderPage o indent nodes := by
  have hmetadata : metadataOf (cover spare nodes) = metadataOf nodes := by
    rw [metadataOf_eq, metadataOf_eq, metadataIn_cover]
  unfold renderPage renderContent
  rw [renderNodes_cover ho indent [] nodes h, frontMatter_congr o.metadata hmetadata]

end Markdown

open Markdown (SparesShort cover coverAll inShortForm renderContent renderNodes_cover renderPage
  renderPage_cover)

/-- Under a hook that answers every text with nothing, what is written for a tree depends on the
    texts of the links in short form and on no others: trees that look alike with all other texts
    covered are written alike. So where no link has the short form, trees with the same nodes
    around their texts are written alike, whatever the texts are. -/
theorem renderContent_silenced (o : Options) (ho : o.Silenced) (indent : Int)
    (nodes nodes' : List Node) :
    (cover inShortForm nodes = cover inShortForm nodes' →
      renderContent o indent nodes = renderContent o indent nodes' ∧
        renderPage o indent nodes = renderPage o indent nodes') ∧
      (coverAll nodes = coverAll nodes' →
        (∀ href content, .link href content ∈ walk nodes ++ walk nodes' →
          inShortForm href content = false) →
        renderContent o indent nodes = renderContent o indent nodes' ∧
          renderPage o indent nodes = renderPage o indent nodes') := by
  -- Both trees are written as their covers are, and the covers are the same.
  have halike : ∀ {spare : String → List Node → Bool}, SparesShort spare (walk nodes) →
      SparesShort spare (walk nodes') → cover spare nodes = cover spare nodes' →
      renderContent o indent nodes = renderContent o indent nodes' ∧
        renderPage o indent nodes = renderPage o indent nodes' := by
    intro spare h h' hcover
    constructor
    · unfold renderContent
      rw [← renderNodes_cover ho indent [] nodes h, hcover,
        renderNodes_cover ho indent [] nodes' h']
    · rw [← renderPage_cover ho indent nodes h, hcover,
        renderPage_cover ho indent nodes' h']
  constructor
  · exact halike (fun _ _ _ hshort => hshort) (fun _ _ _ hshort => hshort)
  · intro hcover hlong
    -- Where no link is in short form, there is none to spare.
    have hnone : ∀ href content, .link href content ∈ walk nodes ++ walk nodes' →
        inShortForm href content = true → false = true := by
      intro href content hd hshort
      rw [hlong href content hd] at hshort
      exact hshort
    exact halike (fun href content hd => hnone href content (List.mem_append_left _ hd))
      (fun href content hd => hnone href content (List.mem_append_right _ hd)) hcover

/-- The hook that answers every text with the empty text and leaves all other nodes to the rules. -/
def silencer : NodeHook := fun _ node _ => .ok (if node.isText then some "" else none)

theorem silences_silencer (view : HookView) : Silences (silencer view) where
  text _ _ := rfl
  other node indent h := by
    unfold silencer
    rw [h]
    rfl

/-- A heading, a list, a table and a link in long form around their texts, beside a link whose text
    stays the same. -/
theorem renderContent_silenced_mixed :
    let o : Options := { Options.default with overrideNode := some silencer }
    let nodes : String → List Node := fun text =>
      [.heading 1 [.text text], .list true [[.text text, .emphasis .bold [.text text]]],
        .table [[.rich [.quote [.text text]] ⟨none, none, none⟩]] none,
        .link "u" [.text text, .text text]]
    let short : Node := .link "v" [.text "w"]
    o.Silenced ∧
      (cover inShortForm (short :: nodes "x") = cover inShortForm (short :: nodes "y") ∧
        renderPage o 0 (short :: nodes "x") = renderPage o 0 (short :: nodes "y")) ∧
      coverAll (nodes "x") = coverAll (nodes "y") ∧
        renderContent o 3 (nodes "x") = renderContent o 3 (nodes "y") := by
  intro o nodes short
  have hcover : cover inShortForm (short :: nodes "x") = cover inShortForm (short :: nodes "y") :=
    rfl
  have hall : coverAll (nodes "x") = coverAll (nodes "y") := rfl
  have ho : o.Silenced := ⟨silencer o.view, rfl, silences_silencer o.view⟩
  have h := renderContent_silenced o ho
  refine ⟨ho, ⟨hcover, ((h 0 _ _).1 hcover).2⟩, hall, ?_⟩
  refine ((h 3 _ _).2 hall fun href content hd => ?_).1
  simp [nodes, Markdown.walk, Markdown.Node.walk, Markdown.walkItems, Markdown.walkRows,
    Markdown.walkRow] at hd
  rcases hd with ⟨rfl, rfl⟩ | ⟨rfl, rfl⟩ <;> rfl

/-- The text of a link in short form is written without a question to the hook: two links that
    differ in nothing but their text are written differently. -/
theorem renderContent_short_label :
    let o : Options := { Options.default with overrideNode := some silencer }
    o.Silenced ∧ coverAll [.link "u" [.text "x"]] = coverAll [.link "u" [.text "y"]] ∧
      renderContent o 0 [.link "u" [.text "x"]] = .ok "[x](u)".toList ∧
      renderContent o 0 [.link "u" [.text "y"]] = .ok "[y](u)".toList :=
  ⟨⟨silencer _, rfl, silences_silencer _⟩, rfl, rfl, rfl⟩

end PageDistill
