import PageDistill.Proofs.Dom.Similar
import PageDistill.Proofs.Lower.TextKept

/-!
# Lowering Depends on What It Asks

Two elements from which lowering gets the same answers are lowered alike.

The rule for an element asks it a handful of questions and goes down for the rest: what it is
called, what its attributes are, what it says, whether it holds only text, which children it has,
and for a table which rows and cells there are below it. `SameAnswers` lists these questions, each
under the category whose rule asks it, and `lowerElement_congr` says that nothing else matters. So
two runs over two pages are compared by comparing answers, and how the pages are related is left
to whoever compares them. Two names may stand for one rule, so the names themselves need not be
the same as long as the rule is (`SameReplies`).

What the descents do one level further down is among the answers. They are asked at any indent
level, since no rule but the hooks looks at that level, and without hooks it has no part in the
outcome.

## Main definitions

* `Options.LowerAlike`: Options that lower alike where there is no head.
* `looksAtText`, `readsText`: The categories and the names of elements that look at what they say.
* `SameContents`: Elements that are links or cells with the same contents.
* `SameRows`: Rows of tables with the same cells.
* `SameAnswers`: Elements of one name that give the same answers to the rule for them.
* `SameReplies`: Elements that give the same answers to one rule, whatever they are called.

## Theorems

* `lowerElement_replies`, `lowerElement_congr`: Elements with the same answers are lowered with the
  same outcome.
* `lowerElement_of_unhandled`, `lowerElement_of_paragraph`: Two rules without questions.
-/

namespace PageDistill

open Markdown (Node Cell CellMarks)
open Dom (SameAttrs)

/-- Options that lower alike where there is no head: without hooks on elements, and with the
    same choices for URLs and columns. -/
structure Options.LowerAlike (o o' : Options) : Prop where
  hooks : o.WithoutElementHooks
  hooks' : o'.WithoutElementHooks
  domain : o'.websiteDomain = o.websiteDomain
  columns : o'.trackTableColumns = o.trackTableColumns

/-- Whether the rule for a category looks at what the element says. -/
def looksAtText : Dom.Category → Bool
  | .heading _ => true
  | .emphasis _ => true
  | .code => true
  | _ => false

/-- Whether the rule for a name looks at what the element says. -/
def readsText (name : String) : Bool :=
  match Dom.categoryOf false name with
  | .heading _ => true
  | .emphasis _ => true
  | .code => true
  | _ => false

/-- Elements with the same attributes of which a link or a cell gets the same contents: the text
    that is all they hold, or what the descents make of them. -/
structure SameContents (lower lower' : Descent) (e e' : Dom.Element) : Prop where
  attrs : SameAttrs e.tag e'.tag
  only : e'.holdsOnlyText = e.holdsOnlyText
  text : e.holdsOnlyText = true → e'.text = e.text
  lowered : ∀ indent indent', (lower indent e).result = (lower' indent' e').result

/-- Rows of tables with the same cells, which are both headers or both not. -/
structure SameRows (lower lower' : Descent) (row row' : Dom.Element) : Prop where
  cells : List.Forall₂ (SameContents lower lower') (cellElements row) (cellElements row')
  header : (row'.first? "th").isSome = (row.first? "th").isSome

/-- Elements that give the same answers to the rule for their category. -/
structure SameAnswers (o o' : Options) (lower lower' : Descent) (e e' : Dom.Element) : Prop where
  name : e'.name = e.name
  category : Dom.categoryOf o'.metadata.wanted e.name = Dom.categoryOf o.metadata.wanted e.name
  parent : (e'.parent == "pre") = (e.parent == "pre")
  lowered : ∀ indent indent', (lower indent e).result = (lower' indent' e').result
  attrs : Dom.categoryOf o.metadata.wanted e.name ≠ .unhandled → SameAttrs e.tag e'.tag
  text : readsText e.name = true → e'.text = e.text
  link : Dom.categoryOf o.metadata.wanted e.name = .link → SameContents lower lower' e e'
  items : Dom.categoryOf o.metadata.wanted e.name = .list → List.Forall₂
    (fun c c' => ∀ indent indent', (lower indent c).result = (lower' indent' c').result)
    e.children e'.children
  rows : Dom.categoryOf o.metadata.wanted e.name = .table →
    List.Forall₂ (SameRows lower lower') (e.named "tr") (e'.named "tr")
  head : Dom.categoryOf o.metadata.wanted e.name = .head →
    (extractMetadata o.metadata.isExtended e).result =
      (extractMetadata o'.metadata.isExtended e').result

/-- Elements that fall under one rule and give the same answers to it. -/
structure SameReplies (o o' : Options) (lower lower' : Descent) (category : Dom.Category)
    (e e' : Dom.Element) : Prop where
  falls : Dom.categoryOf o.metadata.wanted e.name = category
  falls' : Dom.categoryOf o'.metadata.wanted e'.name = category
  ordered : category = .list → (e'.name == "ol") = (e.name == "ol")
  parent : (e'.parent == "pre") = (e.parent == "pre")
  lowered : ∀ indent indent', (lower indent e).result = (lower' indent' e').result
  attrs : category ≠ .unhandled → SameAttrs e.tag e'.tag
  text : looksAtText category = true → e'.text = e.text
  link : category = .link → SameContents lower lower' e e'
  items : category = .list → List.Forall₂
    (fun c c' => ∀ indent indent', (lower indent c).result = (lower' indent' c').result)
    e.children e'.children
  rows : category = .table →
    List.Forall₂ (SameRows lower lower') (e.named "tr") (e'.named "tr")
  head : category = .head →
    (extractMetadata o.metadata.isExtended e).result =
      (extractMetadata o'.metadata.isExtended e').result

/-- Without a head, wanting metadata does not change what an element is. -/
theorem categoryOf_of_headless (wanted : Bool) (name : String)
    (h : wanted = true → Text.foldName name ≠ "head") :
    Dom.categoryOf wanted name = Dom.categoryOf false name := by
  unfold Dom.categoryOf Dom.categoryOfFolded
  by_cases hhead : Text.foldName name = "head"
  · cases wanted with
    | false => rfl
    | true => exact absurd hhead (h rfl)
  · rw [if_neg hhead, if_neg hhead]

/-- A name with a rule of its own, other than that for heads, has it whether metadata is wanted or
    not. -/
theorem categoryOf_false_eq {wanted : Bool} {name : String} {category : Dom.Category}
    (h : Dom.categoryOf wanted name = category) (hhead : category ≠ .head)
    (hrule : category ≠ .unhandled) : Dom.categoryOf false name = category := by
  rw [← h]
  refine (categoryOf_of_headless wanted name fun _ hname => ?_).symm
  subst h
  unfold Dom.categoryOf at hhead hrule
  rw [hname] at hhead hrule
  cases wanted with
  | false => exact hrule rfl
  | true => exact hhead rfl

/-- Heads do not look at what they say, so it does not matter here whether metadata is wanted. -/
theorem readsText_of_looksAtText {wanted : Bool} {name : String}
    (h : looksAtText (Dom.categoryOf wanted name) = true) : readsText name = true := by
  have hsame : Dom.categoryOf false name = Dom.categoryOf wanted name := by
    refine categoryOf_false_eq rfl (fun hhead => ?_) fun hrule => ?_
    · rw [hhead] at h
      exact absurd h Bool.false_ne_true
    · rw [hrule] at h
      exact absurd h Bool.false_ne_true
  rw [← hsame] at h
  exact h

section

variable {o o' : Options} (ho : o.LowerAlike o') {e e' : Dom.Element}

include ho

theorem relativize_congr (url : String) :
    (relativize o url).result = (relativize o' url).result := by
  unfold relativize
  rw [ho.domain]

theorem columnMark_congr (position : Nat) :
    (columnMark o position).result = (columnMark o' position).result := by
  unfold columnMark
  rw [ho.columns]

theorem lowerImage_congr (hattrs : SameAttrs e.tag e'.tag) :
    (lowerImage o e).result = (lowerImage o' e').result := by
  unfold lowerImage
  simp only [hattrs.text?_eq, hattrs.shown_eq]
  by_cases hdata : isInlineImage (e.tag.shown "src") = true
  · rw [if_pos hdata, if_pos hdata]
  · rw [if_neg hdata, if_neg hdata]
    exact Traced.result_bind_congr (relativize_congr ho _) fun _ => rfl

variable {lower lower' : Descent} (indent indent' : Int)

theorem lowerLink_congr (h : SameContents lower lower' e e') :
    (lowerLink o lower indent e).result = (lowerLink o' lower' indent' e').result := by
  have hlow := h.lowered indent indent'
  unfold lowerLink
  simp only [h.attrs.text?_eq, h.only]
  by_cases hdata : isInlineImage ((e.tag.text? "href").getD "#") = true
  · rw [if_pos hdata, if_pos hdata]
    exact Traced.result_bind_congr hlow fun _ => rfl
  · rw [if_neg hdata, if_neg hdata]
    refine Traced.result_bind_congr (relativize_congr ho _) fun href => ?_
    by_cases honly : e.holdsOnlyText = true
    · rw [if_pos honly, if_pos honly, h.text honly]
    · rw [if_neg honly, if_neg honly]
      exact Traced.result_bind_congr hlow fun _ => rfl

theorem lowerCell_congr (position : Nat) (h : SameContents lower lower' e e') :
    (lowerCell o lower indent position e).result =
      (lowerCell o' lower' indent' position e').result := by
  have hlow := h.lowered (indent + 1) (indent' + 1)
  have hmark := columnMark_congr ho position
  unfold lowerCell
  simp only [spanOf, h.attrs.text?_eq, h.only]
  by_cases honly : e.holdsOnlyText = true
  · rw [if_pos honly, if_pos honly, h.text honly]
    exact Traced.result_bind_congr hmark fun _ => rfl
  · rw [if_neg honly, if_neg honly]
    exact Traced.result_bind_congr hlow fun _ => Traced.result_bind_congr hmark fun _ => rfl

theorem lowerCells_congr (position : Nat) {cells cells' : List Dom.Element}
    (h : List.Forall₂ (SameContents lower lower') cells cells') :
    (lowerCells o lower indent position cells).result =
      (lowerCells o' lower' indent' position cells').result := by
  induction h generalizing position with
  | nil => rfl
  | @cons cell cell' _ _ hcell _ ih =>
      have hspan : spanOf cell'.tag "colspan" = spanOf cell.tag "colspan" := by
        rw [spanOf, spanOf, hcell.attrs.text?_eq]
      unfold lowerCells
      rw [hspan]
      exact Traced.result_bind_congr (lowerCell_congr ho indent indent' position hcell)
        fun _ => Traced.result_bind_congr (ih _) fun _ => rfl

theorem lowerTable_congr
    (h : List.Forall₂ (SameRows lower lower') (e.named "tr") (e'.named "tr")) :
    (lowerTable o lower indent e).result = (lowerTable o' lower' indent' e').result := by
  unfold lowerTable
  refine Traced.result_bind_congr (Traced.result_each_congr (h.imp fun row row' hrow =>
    lowerCells_congr ho indent indent' 0 hrow.cells)) fun rows => ?_
  rw [ho.columns]
  generalize e.named "tr" = elements at h
  generalize e'.named "tr" = elements' at h
  cases h with
  | nil => cases rows <;> rfl
  | cons hrow _ =>
      cases rows with
      | nil => rfl
      | cons first others => simp only [hrow.header]

/-- Elements that give the same answers to one rule are lowered with the same outcome, whatever
    they are called. -/
theorem lowerElement_replies {category : Dom.Category}
    (h : SameReplies o o' lower lower' category e e') :
    (lowerElement o lower indent e).result = (lowerElement o' lower' indent' e').result := by
  have hattrs := h.attrs
  have htext := h.text
  unfold lowerElement
  simp only
  rw [Traced.result_debugIf_bind, Traced.result_debugIf_bind, h.falls, h.falls']
  -- Each rule asks its own questions, and both elements give it the same answers.
  cases category with
  | heading level =>
      simp only [htext rfl]
      by_cases hblank : Text.isAllBlank e.text = true
      · rw [if_pos hblank, if_pos hblank]
      · rw [if_neg hblank, if_neg hblank]
        exact Traced.result_bind_congr (h.lowered _ _) fun _ => rfl
  | paragraph => exact Traced.result_bind_congr (h.lowered _ _) fun _ => rfl
  | link =>
      exact Traced.result_bind_congr (lowerLink_congr ho indent indent' (h.link rfl)) fun _ => rfl
  | image => exact Traced.result_bind_congr (lowerImage_congr ho (hattrs nofun)) fun _ => rfl
  | video =>
      have htag := hattrs nofun
      simp only [lowerVideo, htag.filled?_eq, htag.text?_eq, htag.hasAttr_eq]
  | list =>
      simp only [h.ordered rfl]
      exact Traced.result_bind_congr (Traced.result_each_congr
        ((h.items rfl).imp fun c c' hc => hc _ _)) fun _ => rfl
  | lineBreak => rfl
  | table =>
      exact Traced.result_bind_congr (lowerTable_congr ho indent indent' (h.rows rfl)) fun _ => rfl
  | head => exact Traced.result_bind_congr (h.head rfl) fun _ => rfl
  | dropped => rfl
  | emphasis style =>
      simp only [htext rfl]
      by_cases hblank : Text.isAllBlank e.text = true
      · rw [if_pos hblank, if_pos hblank]
      · rw [if_neg hblank, if_neg hblank]
        exact Traced.result_bind_congr (h.lowered _ _) fun _ => rfl
  | code => simp only [lowerCode, htext rfl, (hattrs nofun).classes_eq, bne, h.parent]
  | quote => exact Traced.result_bind_congr (h.lowered _ _) fun _ => rfl
  | semantic element => exact Traced.result_bind_congr (h.lowered _ _) fun _ => rfl
  | unhandled =>
      simp only [ho.hooks.2, ho.hooks'.2, Options.shownTo_none, askHook]
      exact h.lowered _ _

/-- Elements of one name that give the same answers are lowered with the same outcome. -/
theorem lowerElement_congr (h : SameAnswers o o' lower lower' e e') :
    (lowerElement o lower indent e).result = (lowerElement o' lower' indent' e').result :=
  lowerElement_replies ho indent indent'
    { falls := rfl
      falls' := by rw [h.name, h.category]
      ordered := fun _ => by rw [h.name]
      parent := h.parent
      lowered := h.lowered
      attrs := h.attrs
      text := fun hlooks => h.text (readsText_of_looksAtText hlooks)
      link := h.link
      items := h.items
      rows := h.rows
      head := h.head }

-- An element without a rule of its own is what its children are, one level further down.
omit ho in
theorem lowerElement_of_unhandled (hhook : o.unhandledElement = none)
    (hcategory : Dom.categoryOf o.metadata.wanted e.name = .unhandled) :
    (lowerElement o lower indent e).result = (lower (indent + 1) e).result := by
  unfold lowerElement
  rw [Traced.result_debugIf_bind, hcategory, hhook]
  rfl

-- A paragraph is what its children are, with line ends after them.
omit ho in
/-- A paragraph is its contents and an empty line. -/
theorem lowerElement_of_paragraph
    (hcategory : Dom.categoryOf o.metadata.wanted e.name = .paragraph) :
    (lowerElement o lower indent e).result =
      (lower indent e).result.map fun nodes => nodes ++ [.text "\n\n"] := by
  unfold lowerElement
  rw [Traced.result_debugIf_bind, hcategory]
  simp only [Traced.result_bind]
  cases (lower indent e).result <;> rfl

-- A text has the same nodes in both runs.
omit ho in
/-- A text is lowered alike under all options. -/
theorem lowerText_congr (content : String) :
    (lowerText o content).result = (lowerText o' content).result := by
  unfold lowerText
  by_cases hempty : (Text.trim content.toList).isEmpty = true
  · simp only [if_pos hempty]
  · simp only [if_neg hempty]
    rw [Traced.result_debugIf_bind, Traced.result_debugIf_bind]

end

-- Without a hook a child is lowered by what kind of node it is.
section

variable {o : Options} (hhooks : o.WithoutElementHooks) (lower : Descent) (indent : Int)
  (parent : Dom.Element)

include hhooks

theorem lowerChild_text (content : String) :
    (lowerChild o lower indent parent (.text content)).result = (lowerText o content).result := by
  unfold lowerChild
  rw [hhooks.1]
  rfl

/-- Comments and the like leave nothing. -/
theorem lowerChild_special (kind : Dom.Special) (content : String) :
    (lowerChild o lower indent parent (.special kind content)).result = .ok [] := by
  unfold lowerChild
  rw [hhooks.1]
  rfl

/-- An element is lowered with what is around it. -/
theorem lowerChild_element (tag : Dom.Tag) (nodes : List Dom.Node) :
    (lowerChild o lower indent parent (.element tag nodes)).result =
      (lowerElement o lower indent ⟨parent.name, parent.innerRole, tag, nodes⟩).result := by
  unfold lowerChild
  rw [hhooks.1]
  rfl

end

end PageDistill
