import PageDistill.Markdown.FrontMatter
import PageDistill.Proofs.Lower.Rules
import PageDistill.Proofs.Text.Trimmed

/-!
# Lowered Trees Are Well Formed

What a tree looks like that lowering has made.

The data types of the tree allow more than lowering makes: headings of any level, texts that are
empty or padded with blank, cells that span nothing, nodes that are a bare item, row or cell, and
nodes of a caller's own. Rendering does not check any of that. A node which is neither inline nor
a block has no rendering at all, and would be lost without a word.

`Node.WellFormed` says what a node is like when the rules have made it. It has a case for each
shape that can occur and none for the others, so a well-formed tree holds no bare item, row or
cell and no node of a caller's own. The text below a link is a case of its own: it is trimmed like
any other text, but may be empty.

Without hooks everything that lowering makes is well formed. That is the induction of
`lower_made`, with one line for each form.

## Main definitions

* `IsContent`: The texts that occur in a tree.
* `CellMarks.WellFormed`, `Cell.WellFormed`, `Node.WellFormed`: The data of a tree in order.
* `Node.HasPlace`: The nodes that a rendering has a place for.
* `Category.InRange`: The categories that names can have.

## Theorems

* `Node.WellFormed.laidOut`: Whatever is met in a well-formed tree has a place in its rendering.
* `Made.wellFormed`: What a rule makes of well-formed trees is well formed.
* `lower_wellFormed`: Lowering makes well-formed trees.
-/

namespace PageDistill

open Markdown (Node Cell)

namespace Markdown

/-- A text of a tree: a line break, a break between paragraphs, or a text that says something and
    has no blank around it. -/
def IsContent (content : String) : Prop :=
  content = "\n" ∨ content = "\n\n" ∨ content ≠ "" ∧ Text.Trimmed content.toList

/-- A text in which every character of markup is escaped. -/
def IsEscaped (text : String) : Prop := ∃ source, text = escapeText source

/-- Only spans of two or more are marked. -/
def CellMarks.WellFormed (marks : CellMarks) : Prop :=
  (∀ span ∈ marks.colspan, 2 ≤ span) ∧ ∀ span ∈ marks.rowspan, 2 ≤ span

/-- A cell in order, but for the nodes in it: one that held only text has it escaped, unless it
    belongs to the row that separates a header from its body. -/
def Cell.WellFormed : Cell → Prop
  | .plain text marks => (text = "---" ∨ IsEscaped text) ∧ marks.WellFormed
  | .rich _ marks => marks.WellFormed

/-- A node as the rules make it, and all below it, with metadata only if that is wanted. -/
inductive Node.WellFormed (wanted : Bool) : Node → Prop where
  | text (content : String) (h : IsContent content) : WellFormed wanted (.text content)
  | emphasis (style : Emphasis) (content : List Node)
      (h : ∀ node ∈ content, WellFormed wanted node) :
      WellFormed wanted (.emphasis style content)
  | link (href : String) (content : List Node) (h : ∀ node ∈ content, WellFormed wanted node) :
      WellFormed wanted (.link href content)
  | label (href label : String) (h : Text.Trimmed label.toList) :
      WellFormed wanted (.link href [.text label])
  | heading (level : Int) (content : List Node) (hlevel : 1 ≤ level ∧ level ≤ 6)
      (h : ∀ node ∈ content, WellFormed wanted node) : WellFormed wanted (.heading level content)
  | image (src : String) (alt : Option String) (h : ∀ text ∈ alt, IsEscaped text) :
      WellFormed wanted (.image src alt)
  | video (src : Dom.AttrValue) (poster : Option String) (controls : Option Bool)
      (h : ∀ text ∈ poster, IsEscaped text) : WellFormed wanted (.video src poster controls)
  | list (ordered : Bool) (items : List (List Node))
      (h : ∀ item ∈ items, ∀ node ∈ item, WellFormed wanted node) :
      WellFormed wanted (.list ordered items)
  | table (rows : List (List Cell)) (colIds : Option (List String))
      (hcells : ∀ row ∈ rows, ∀ cell ∈ row, cell.WellFormed)
      (h : ∀ row ∈ rows, ∀ cell ∈ row, ∀ node ∈ cell.content, WellFormed wanted node) :
      WellFormed wanted (.table rows colIds)
  | code (content : String) (language : Option String) (inline : Bool)
      (h : content ≠ "" ∧ Text.Trimmed content.toList) :
      WellFormed wanted (.code content language inline)
  | quote (content : List Node) (h : ∀ node ∈ content, WellFormed wanted node) :
      WellFormed wanted (.quote content)
  | semantic (element : String) (content : List Node) (hname : element ∈ Dom.semanticNames)
      (h : ∀ node ∈ content, WellFormed wanted node) : WellFormed wanted (.semantic element content)
  | metadata (entries : Metadata) (hwanted : wanted = true) : WellFormed wanted (.metadata entries)

/-- A node that a rendering has a place for: along a line, on lines of its own, or, if metadata is
    wanted, in the front matter. -/
def Node.HasPlace (wanted : Bool) (node : Node) : Prop :=
  node.isInline = true ∨ node.isBlock = true ∨ wanted = true ∧ node.metadata?.isSome = true

section

variable {wanted : Bool} {node : Node}

theorem Node.WellFormed.hasPlace (h : node.WellFormed wanted) : node.HasPlace wanted := by
  cases h with
  | text | emphasis | link | label => exact Or.inl rfl
  | code content language inline =>
      cases inline with
      | false => exact Or.inr (Or.inl rfl)
      | true => exact Or.inl rfl
  | metadata entries hwanted => exact Or.inr (Or.inr ⟨hwanted, rfl⟩)
  | _ => exact Or.inr (Or.inl rfl)

/-- A node and all below it have a place if the node has one and all below its children do. -/
theorem Node.hasPlace_walk (h : node.HasPlace wanted)
    (hbelow : ∀ child ∈ node.children, ∀ d ∈ child.walk, d.HasPlace wanted) :
    ∀ d ∈ node.walk, d.HasPlace wanted := by
  intro d hd
  rw [Node.walk_eq, walk_eq_flatMap] at hd
  rcases List.mem_cons.mp hd with rfl | hd
  · exact h
  · rcases List.mem_flatMap.mp hd with ⟨child, hchild, hd⟩
    exact hbelow child hchild d hd

/-- Whatever is met in a well-formed tree has a place in its rendering. -/
theorem Node.WellFormed.laidOut (h : node.WellFormed wanted) :
    ∀ d ∈ node.walk, d.HasPlace wanted := by
  have hplace := h.hasPlace
  induction h with
  | text | image | video | code | metadata =>
      exact hasPlace_walk hplace fun _ hchild => absurd hchild List.not_mem_nil
  -- The text of a link is its only child.
  | label href label _ =>
      refine hasPlace_walk hplace fun child hchild d hd => ?_
      rw [List.mem_singleton.mp hchild] at hd
      rw [List.mem_singleton.mp hd]
      exact Or.inl rfl
  | list ordered items h ih =>
      refine hasPlace_walk hplace fun child hchild => ?_
      rcases List.mem_flatten.mp hchild with ⟨item, hitem, hchild⟩
      exact ih item hitem child hchild (h item hitem child hchild).hasPlace
  | table rows colIds _ h ih =>
      refine hasPlace_walk hplace fun child hchild => ?_
      rcases List.mem_flatMap.mp hchild with ⟨cell, hcell, hchild⟩
      rcases List.mem_flatten.mp hcell with ⟨row, hrow, hcell⟩
      exact ih row hrow cell hcell child hchild (h row hrow cell hcell child hchild).hasPlace
  | emphasis _ _ h ih | link _ _ h ih | heading _ _ _ h ih | quote _ h ih | semantic _ _ _ h ih =>
      exact hasPlace_walk hplace fun child hchild => ih child hchild (h child hchild).hasPlace

end

end Markdown

/-- A category that names can have: the levels of headings and the names of semantic elements are
    those that there are. -/
def Dom.Category.InRange : Dom.Category → Prop
  | .heading level => 1 ≤ level ∧ level ≤ 6
  | .semantic element => element ∈ Dom.semanticNames
  | _ => True

/-- A heading has one of the six levels. -/
theorem categoryOf_inRange (wanted : Bool) (name : String) :
    (Dom.categoryOf wanted name).InRange := by
  have hnamed : ∀ entry ∈ Dom.namedCategories, entry.2.InRange := by
    simp [Dom.namedCategories, Dom.Category.InRange]
  unfold Dom.categoryOf
  rcases Dom.categoryOfFolded_cases wanted (Text.foldName name) with
    ⟨_, h⟩ | ⟨_, h⟩ | ⟨hname, h⟩ | hentry | h
  · rw [h]
    exact True.intro
  · rw [h]
    exact True.intro
  · rw [h]
    exact hname
  · exact hnamed _ hentry
  · rw [h]
    exact True.intro

section

variable {o : Options} {wanted : Bool}

/-- A text that something is left of, as the string of a node. -/
theorem ofList_trimmed {text : List Char} (hne : text ≠ []) (h : Text.Trimmed text) :
    String.ofList text ≠ "" ∧ Text.Trimmed (String.ofList text).toList := by
  refine ⟨fun hempty => hne ?_, ?_⟩
  · simpa using congrArg String.toList hempty
  · rw [String.toList_ofList]
    exact h

theorem textNodes_wellFormed (content : String) :
    ∀ node ∈ textNodes content, node.WellFormed wanted := by
  rcases textNodes_cases content with hnone | ⟨hfilled, hone⟩
  · rw [hnone]
    exact fun _ hnode => absurd hnode List.not_mem_nil
  · rw [hone]
    exact List.forall_mem_singleton.mpr
      (.text _ (Or.inr (Or.inr (ofList_trimmed hfilled (Text.trimmed_trim _)))))

/-- The strings that are joined are trimmed, and those with nothing left are not among them. -/
theorem flattened_wellFormed (e : Dom.Element) :
    ∀ node ∈ flattened e, node.WellFormed wanted := by
  have htrimmed : Text.Trimmed e.spacedText := by
    refine (Text.trimmed_joinWith _ _ fun piece hpiece => ?_).1
    rcases List.mem_filter.mp hpiece with ⟨hmem, hfilled⟩
    rcases List.mem_map.mp hmem with ⟨source, _, rfl⟩
    exact ⟨by simpa using hfilled, Text.trimmed_trim source⟩
  rcases flattened_cases e with hnone | ⟨hfilled, hone⟩
  · rw [hnone]
    exact fun _ hnode => absurd hnode List.not_mem_nil
  · rw [hone]
    exact List.forall_mem_singleton.mpr
      (.text _ (Or.inr (Or.inr (ofList_trimmed hfilled htrimmed))))

theorem lowerCode_wellFormed (e : Dom.Element) :
    ∀ node ∈ lowerCode e, node.WellFormed wanted := by
  rcases lowerCode_cases e with hnone | ⟨hfilled, _, _, hone⟩
  · rw [hnone]
    exact fun _ hnode => absurd hnode List.not_mem_nil
  · rw [hone]
    exact List.forall_mem_singleton.mpr
      (.code _ _ _ (ofList_trimmed hfilled (Text.trimmed_trim _)))

theorem isEscaped_map (text : Option String) :
    ∀ escaped ∈ text.map Markdown.escapeText, Markdown.IsEscaped escaped := by
  intro escaped h
  rcases Option.map_eq_some_iff.mp h with ⟨source, _, rfl⟩
  exact ⟨source, rfl⟩

/-- A span that is marked is one of two or more. -/
theorem spanMark_ge (span : Nat) : ∀ mark ∈ spanMark span, 2 ≤ mark := by
  intro mark h
  unfold spanMark at h
  by_cases hspan : 1 < span
  · rw [if_pos hspan] at h
    rw [← Option.some.inj h]
    omega
  · rw [if_neg hspan] at h
    exact absurd h (by simp)

theorem marksAt_wellFormed (position : Nat) (cell : Dom.Element) :
    (marksAt o position cell).WellFormed :=
  ⟨spanMark_ge _, spanMark_ge _⟩

section

variable {made : Dom.Element → List Node → Prop}
  (hmade : ∀ e nodes, made e nodes → ∀ node ∈ nodes, node.WellFormed wanted)

include hmade

/-- A table of cells that can be made is well-formed, with its separator. -/
theorem tableOf_wellFormed {e : Dom.Element} {rows : List (List Cell)}
    (h : List.Forall₂ (fun row cells => MadeCells o made 0 (cellElements row) cells)
      (e.named "tr") rows) : (tableOf o e rows).WellFormed wanted := by
  have hplain : ∀ (d : Dom.Element) (position : Nat), Cell.WellFormed
      (.plain (String.ofList (Markdown.escape (Text.trim d.text))) (marksAt o position d)) := by
    refine fun d position => ⟨Or.inr ⟨String.ofList (Text.trim d.text), ?_⟩,
      marksAt_wellFormed position d⟩
    rw [Markdown.escapeText, String.toList_ofList]
  rcases tableOf_forall_cell
    (fun cell => cell.WellFormed ∧ ∀ node ∈ cell.content, node.WellFormed wanted) h
    ⟨⟨Or.inl rfl, nofun, nofun⟩, List.forall_mem_nil _⟩
    (fun d _ _ _ position => ⟨hplain d position, List.forall_mem_nil _⟩)
    fun d _ content hcontent position =>
      ⟨marksAt_wellFormed position d, hmade d content hcontent⟩
    with ⟨all, colIds, htable, hcells⟩
  rw [htable]
  exact .table all colIds (fun row hrow cell hcell => (hcells row hrow cell hcell).1)
    fun row hrow cell hcell => (hcells row hrow cell hcell).2

/-- One case for each form; what the descent has made stands in it as it is. -/
theorem Made.wellFormed (hwanted : wanted = o.metadata.wanted) {e : Dom.Element}
    {nodes : List Node} (h : Made o made e nodes) : ∀ node ∈ nodes, node.WellFormed wanted := by
  have hrange := categoryOf_inRange o.metadata.wanted e.name
  have hnone : ∀ node ∈ ([] : List Node), node.WellFormed wanted :=
    fun _ hnode => absurd hnode List.not_mem_nil
  -- Most rules make one node.
  have hone : ∀ only : Node, only.WellFormed wanted → ∀ node ∈ [only], node.WellFormed wanted :=
    fun only honly => List.forall_mem_singleton.mpr honly
  cases h with
  | blank | dropped => exact hnone
  | heading level hcategory _ h =>
      rw [hcategory] at hrange
      refine hone _ (.heading _ _ ?_ (hmade e _ h))
      unfold Dom.Category.InRange at hrange
      omega
  | paragraph _ h =>
      exact List.forall_mem_append.mpr ⟨hmade e _ h, hone _ (.text _ (Or.inr (Or.inl rfl)))⟩
  | label =>
      refine hone _ (.label _ _ ?_)
      rw [String.toList_ofList]
      exact Text.trimmed_trim e.text
  | link _ h => exact hone _ (.link _ _ (hmade e _ h))
  | image => exact hone _ (.image _ _ (isEscaped_map _))
  | video => exact hone _ (.video _ _ _ (isEscaped_map _))
  | list _ h =>
      refine hone _ (.list _ _ fun item hitem => ?_)
      rcases Traced.exists_of_mem_right h hitem with ⟨child, _, hchild⟩
      exact hmade child item hchild
  | lineBreak => exact hone _ (.text _ (Or.inl rfl))
  | table _ h => exact hone _ (tableOf_wellFormed hmade h)
  | head m hcategory =>
      refine hone _ (.metadata m ?_)
      rw [hwanted]
      by_contra hoff
      rw [Bool.not_eq_true] at hoff
      rw [hoff] at hcategory
      exact categoryOf_false_ne_head e.name hcategory
  | emphasis style _ _ h => exact hone _ (.emphasis _ _ (hmade e _ h))
  | code => exact lowerCode_wellFormed e
  | quote _ h => exact hone _ (.quote _ (hmade e _ h))
  | semantic element hcategory h =>
      rw [hcategory] at hrange
      exact hone _ (.semantic _ _ hrange (hmade e _ h))
  | passed _ h => exact hmade e _ h

end

end

/-- Without hooks lowering makes well-formed trees, or fails in one of its ways. -/
theorem lower_wellFormed (o : Options) (ho : o.WithoutElementHooks) (indent : Int)
    (e : Dom.Element) :
    (∃ nodes, (lower o indent e).result = .ok nodes ∧
        (∀ node ∈ nodes, node.WellFormed o.metadata.wanted) ∧
        ∀ node ∈ Markdown.walk nodes, node.HasPlace o.metadata.wanted) ∨
      ∃ fault, (lower o indent e).result = .error fault ∧
        LoweringFault o e.descendants fault := by
  have hends := lower_made
    (fun _ _ nodes => ∀ node ∈ nodes, node.WellFormed o.metadata.wanted) ho
    flattened_wellFormed (fun levels e parts hparts node hnode => ?_) indent e
  · rcases hends.cases with ⟨nodes, hnodes, hall⟩ | hfault
    · refine Or.inl ⟨nodes, hnodes, hall, fun node hnode => ?_⟩
      rw [Markdown.walk_eq_flatMap] at hnode
      rcases List.mem_flatMap.mp hnode with ⟨top, htop, hnode⟩
      exact (hall top htop).laidOut node hnode
    · exact Or.inr hfault
  · rcases List.mem_flatten.mp hnode with ⟨part, hpart, hnode⟩
    rcases Traced.exists_of_mem_right hparts hpart with ⟨child, _, hchild⟩
    cases hchild with
    | text content => exact textNodes_wellFormed content node hnode
    | special => exact absurd hnode List.not_mem_nil
    | element tag children h => exact h.wellFormed (fun _ _ h => h) rfl node hnode

/-- A head with a title, a link whose text is blank, a table with a header and a cell that holds a
    list, and elements that stand too deep. With these options nothing can fail. -/
theorem lower_wellFormed_mixed :
    let plain (name : String) (nodes : List Dom.Node) : Dom.Node := .element ⟨name, []⟩ nodes
    let e : Dom.Element := ⟨"[document]", .ordinary, ⟨"html", []⟩,
      [plain "head" [plain "title" [.text "T"]], plain "a" [.text " "],
        plain "table" [plain "tr" [.element ⟨"th", [("colspan", .text "2")]⟩ [.text "a|b"]],
          plain "tr" [plain "td" [plain "ul" [plain "li" [.text "One "], plain "b" []]]]],
        plain "div" [plain "div" [plain "div" [plain "h7" [.text "two"], plain "p" []]]]]⟩
    let o : Options := { Options.default with metadata := .basic, maxDepth := .whole 2 }
    o.WithoutElementHooks ∧
      ∃ nodes, (lower o 0 e).result = .ok nodes ∧ (∀ node ∈ nodes, node.WellFormed true) ∧
        ∀ node ∈ Markdown.walk nodes, node.HasPlace true := by
  intro plain e o
  have ho : o.WithoutElementHooks := ⟨rfl, rfl⟩
  refine ⟨ho, ?_⟩
  rcases lower_wellFormed o ho 0 e with hok | ⟨_, _, hfault⟩
  · exact hok
  · cases hfault with
    | domain _ hdomain => exact absurd hdomain nofun
    | limit _ hlimit => exact absurd hlimit nofun
    | columns _ _ _ htrack => exact absurd htrack Bool.false_ne_true
    | number _ _ _ _ _ hmode => exact absurd hmode nofun

end PageDistill
