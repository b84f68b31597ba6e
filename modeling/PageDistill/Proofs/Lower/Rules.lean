import PageDistill.Proofs.Lower.Agreement
import PageDistill.Proofs.Metadata.Extraction

/-!
# What the Rules Make

Everything that a rule of lowering can make of an element, and every way in which it can
fail.

The rule for an element makes its nodes out of what the descent makes of the element, of its
children, or of its cells. `Made` lists the forms that this takes, one for each rule, with what
the rule asks of the element; what the descent makes is a parameter. `lowerLevels_made` turns
that into an induction: a statement about elements and nodes holds of everything that lowering
makes, if it holds of the text that an element is flattened to and goes over from the parts of
an element to the element. Such a statement may depend on the levels that are left. So a proof
about all lowered trees is a look at each form, and never one at the computation.

Without hooks there are four ways to fail (`LoweringFault`): a domain that is no text, a limit
that no depth can be compared with, a row of too many columns when columns are marked, and an
integer of too many digits in structured data that is wanted. The last two name the element
that is at fault.

## Main definitions

* `linkAddress`, `imageAddress`, `videoAddress`: The addresses that elements turn into.
* `flattened`: The text of an element that stands too deep.
* `tableOf`: The table of some rows.
* `hasHeader`, `separated`: Whether a table has a header, and its rows with a separator below it.
* `MadeCells`, `MadeRows`, `Made`, `MadeChild`: What is made of cells, of the rows of a table, of
  an element, and of a child.
* `LoweringFault`: The ways to fail.

## Theorems

* `textNodes_cases`, `flattened_cases`, `lowerCode_cases`: One node, or nothing to say.
* `tableOf_eq`: The rows that a table is made of.
* `tableOf_forall_cell`: What holds of all cells of a table.
* `lowerElement_ends`, `lowerElement_made`: An element is lowered to one of the forms, or fails in
  one of the ways.
* `lowerChild_levels_made`: So is a child, when less levels are left.
* `lowerLevels_made`: The induction.
* `lower_made`: The same from the top of a conversion.
-/

namespace PageDistill

open Markdown (Node Cell CellMarks)

/-- A URL without the domain that the options cut off, if the domain is text. -/
def Options.cutDomain (o : Options) (url : String) : String :=
  match o.websiteDomain with
  | some (.text domain) => (dropStart? domain url).getD url
  | _ => url

/-- The address that a link gets. -/
def linkAddress (o : Options) (e : Dom.Element) : String :=
  let href := (e.tag.text? "href").getD "#"
  if isInlineImage href then inlineImageUrl else o.cutDomain href

/-- The address that an image gets. -/
def imageAddress (o : Options) (e : Dom.Element) : String :=
  let src := e.tag.shown "src"
  if isInlineImage src then inlineImageUrl else o.cutDomain src

/-- The address that a video gets. -/
def videoAddress (e : Dom.Element) : Dom.AttrValue := (e.tag.filled? "src").getD (.text "")

/-- The nodes for a text. -/
def textNodes (content : String) : List Node :=
  let text := Text.trim content.toList
  if text.isEmpty then [] else [.text (String.ofList text)]

/-- The nodes for an element whose structure is not kept. -/
def flattened (e : Dom.Element) : List Node :=
  let text := e.spacedText
  if text.isEmpty then [] else [.text (String.ofList text)]

/-- The marks of a cell that begins at a column. -/
def marksAt (o : Options) (position : Nat) (cell : Dom.Element) : CellMarks where
  colId := if o.trackTableColumns then some (columnId position) else none
  colspan := spanMark (spanOf cell.tag "colspan")
  rowspan := spanMark (spanOf cell.tag "rowspan")

/-- The table that an element makes of its rows. -/
def tableOf (o : Options) (e : Dom.Element) (rows : List (List Cell)) : Node :=
  let width := ((rows.head?.map Markdown.rowWidth).getD 0).toNat
  let colIds := if o.trackTableColumns then some ((List.range width).map columnId) else none
  match rows, e.named "tr" with
  | first :: others, header :: _ =>
    if (header.first? "th").isSome then .table (first :: separatorRow width :: others) colIds
    else .table rows colIds
  | _, _ => .table rows colIds

/-- Whether the first row of a table holds a header cell. -/
def hasHeader (e : Dom.Element) : Bool :=
  match e.named "tr" with
  | [] => false
  | header :: _ => (header.first? "th").isSome

/-- The rows of a table, with a separator below the first row if that is a header. -/
def separated (header : Bool) : List (List Cell) → List (List Cell)
  | [] => []
  | first :: others =>
    if header then first :: separatorRow (Markdown.rowWidth first).toNat :: others
    else first :: others

/-- A text, a flattened element and code each make one node, unless they have nothing to say. -/
theorem textNodes_cases (content : String) :
    textNodes content = [] ∨ Text.trim content.toList ≠ [] ∧
      textNodes content = [.text (String.ofList (Text.trim content.toList))] := by
  unfold textNodes
  by_cases hempty : (Text.trim content.toList).isEmpty = true
  · exact Or.inl (if_pos hempty)
  · exact Or.inr ⟨fun h => hempty (List.isEmpty_iff.mpr h), if_neg hempty⟩

theorem flattened_cases (e : Dom.Element) :
    flattened e = [] ∨ e.spacedText ≠ [] ∧ flattened e = [.text (String.ofList e.spacedText)] := by
  unfold flattened
  by_cases hempty : e.spacedText.isEmpty = true
  · exact Or.inl (if_pos hempty)
  · exact Or.inr ⟨fun h => hempty (List.isEmpty_iff.mpr h), if_neg hempty⟩

theorem lowerCode_cases (e : Dom.Element) :
    lowerCode e = [] ∨ Text.trim e.text ≠ [] ∧ ∃ language inline,
      lowerCode e = [.code (String.ofList (Text.trim e.text)) language inline] := by
  unfold lowerCode
  by_cases hempty : (Text.trim e.text).isEmpty = true
  · exact Or.inl (if_pos hempty)
  · exact Or.inr ⟨fun h => hempty (List.isEmpty_iff.mpr h), _, _, if_neg hempty⟩

/-- Only a head has the category of one. -/
theorem foldName_eq_head {wanted : Bool} {name : String}
    (h : Dom.categoryOf wanted name = .head) : Text.foldName name = "head" := by
  by_contra hname
  rw [categoryOf_of_headless wanted name fun _ => hname] at h
  exact categoryOf_false_ne_head name h

theorem tableOf_eq (o : Options) (e : Dom.Element) (rows : List (List Cell)) :
    ∃ colIds, tableOf o e rows = .table (separated (hasHeader e) rows) colIds := by
  unfold tableOf hasHeader
  cases rows with
  | nil => exact ⟨_, rfl⟩
  | cons first others =>
      cases e.named "tr" with
      | nil => exact ⟨_, rfl⟩
      | cons header _ =>
          simp only [separated]
          by_cases hheader : (header.first? "th").isSome = true
          · rw [if_pos hheader, if_pos hheader]
            exact ⟨_, rfl⟩
          · rw [if_neg hheader, if_neg hheader]
            exact ⟨_, rfl⟩

/-- A row of a table is one of its rows on the page, or a separator. -/
theorem mem_separated {header : Bool} {rows : List (List Cell)} {row : List Cell}
    (h : row ∈ separated header rows) :
    row ∈ rows ∨ ∃ width, row = separatorRow width := by
  cases rows with
  | nil => exact absurd h List.not_mem_nil
  | cons first others =>
      rw [separated] at h
      by_cases hheader : header = true
      · rw [if_pos hheader, List.mem_cons, List.mem_cons] at h
        rcases h with rfl | rfl | h
        · exact Or.inl List.mem_cons_self
        · exact Or.inr ⟨_, rfl⟩
        · exact Or.inl (List.mem_cons_of_mem first h)
      · rw [if_neg hheader] at h
        exact Or.inl h

/-- What the rows of a table hold: the rows that it is made of, and a separator. -/
theorem mem_rows_tableOf (o : Options) (e : Dom.Element) (rows : List (List Cell)) :
    ∃ all colIds, tableOf o e rows = .table all colIds ∧
      ∀ row ∈ all, row ∈ rows ∨ ∃ width, row = separatorRow width := by
  rcases tableOf_eq o e rows with ⟨colIds, heq⟩
  exact ⟨_, colIds, heq, fun _ hrow => mem_separated hrow⟩

/-- The ways in which lowering fails, with the elements that it goes through. -/
inductive LoweringFault (o : Options) (elements : List Dom.Element) : ConversionError → Prop where
  | domain (kind : Json.Kind) (hdomain : o.websiteDomain = some (.notText kind)) :
      LoweringFault o elements (.domainNotText kind)
  | limit (kind : Json.Kind) (hlimit : o.maxDepth = .unordered kind) :
      LoweringFault o elements (.limitUnordered kind)
  | columns (row : Dom.Element) (hrow : row ∈ elements) (hname : row.name = "tr")
      (htrack : o.trackTableColumns = true) (hwide : columnBound ≤ columnsOf (cellElements row)) :
      LoweringFault o elements (.tooManyDigits none)
  | number (head block : Dom.Element) (count : Nat) (hhead : head ∈ elements)
      (hname : Text.foldName head.name = "head") (hmode : o.metadata.isExtended = true)
      (hblock : block ∈ head.named "script")
      (htype : block.tag.hasText "type" structuredDataType = true)
      (hread : Json.read (blockSource block) = .error (.tooManyDigits count)) :
      LoweringFault o elements (.tooManyDigits (some count))

/-- What goes wrong in some elements goes wrong in more. -/
theorem LoweringFault.mono {o : Options} {elements more : List Dom.Element}
    (hsub : elements ⊆ more) {fault : ConversionError} (h : LoweringFault o elements fault) :
    LoweringFault o more fault := by
  cases h with
  | domain kind hdomain => exact .domain kind hdomain
  | limit kind hlimit => exact .limit kind hlimit
  | columns row hrow hname htrack hwide => exact .columns row (hsub hrow) hname htrack hwide
  | number head block count hhead hname hmode hblock htype hread =>
      exact .number head block count (hsub hhead) hname hmode hblock htype hread

/-- Where nothing that can fail is asked for, nothing fails. -/
theorem LoweringFault.false_of_plain {o : Options} {elements : List Dom.Element}
    {fault : ConversionError} (h : LoweringFault o elements fault)
    (hdomain : o.websiteDomain = none) (hlimit : ∀ kind, o.maxDepth ≠ .unordered kind)
    (htrack : o.trackTableColumns = false) (hmode : o.metadata.isExtended = false) : False := by
  cases h with
  | domain kind h =>
      rw [hdomain] at h
      exact absurd h nofun
  | limit kind h => exact hlimit kind h
  | columns row _ _ h =>
      rw [htrack] at h
      exact absurd h Bool.false_ne_true
  | number _ _ _ _ _ h => exact absurd (hmode.symm.trans h) Bool.false_ne_true

section

variable (o : Options) (made : Dom.Element → List Node → Prop)

/-- What is made of the cells of a row from a column on. -/
inductive MadeCells : Nat → List Dom.Element → List Cell → Prop where
  | nil (position : Nat) : MadeCells position [] []
  | plain (position : Nat) (cell : Dom.Element) {cells : List Dom.Element} {rest : List Cell}
      (honly : cell.holdsOnlyText = true)
      (hrest : MadeCells (position + spanOf cell.tag "colspan") cells rest) :
      MadeCells position (cell :: cells)
        (.plain (String.ofList (Markdown.escape (Text.trim cell.text))) (marksAt o position cell) ::
          rest)
  | rich (position : Nat) (cell : Dom.Element) {cells : List Dom.Element} {rest : List Cell}
      (content : List Node) (honly : cell.holdsOnlyText = false) (hcontent : made cell content)
      (hrest : MadeCells (position + spanOf cell.tag "colspan") cells rest) :
      MadeCells position (cell :: cells) (.rich content (marksAt o position cell) :: rest)

/-- What is made of the rows of a table. -/
abbrev MadeRows (e : Dom.Element) (rows : List (List Cell)) : Prop :=
  List.Forall₂ (fun row cells => MadeCells o made 0 (cellElements row) cells) (e.named "tr") rows

/-- What is made of an element by the rule for its category. -/
inductive Made (e : Dom.Element) : List Node → Prop where
  | blank (hblank : Text.isAllBlank e.text = true) : Made e []
  | heading (level : Nat) {nodes : List Node}
      (hcategory : Dom.categoryOf o.metadata.wanted e.name = .heading level)
      (hwords : Text.isAllBlank e.text = false) (h : made e nodes) : Made e [.heading level nodes]
  | paragraph {nodes : List Node}
      (hcategory : Dom.categoryOf o.metadata.wanted e.name = .paragraph) (h : made e nodes) :
      Made e (nodes ++ [.text "\n\n"])
  | label (hcategory : Dom.categoryOf o.metadata.wanted e.name = .link)
      (honly : e.holdsOnlyText = true) :
      Made e [.link (linkAddress o e) [.text (String.ofList (Text.trim e.text))]]
  | link {nodes : List Node} (hcategory : Dom.categoryOf o.metadata.wanted e.name = .link)
      (h : made e nodes) : Made e [.link (linkAddress o e) nodes]
  | image (hcategory : Dom.categoryOf o.metadata.wanted e.name = .image) :
      Made e [.image (imageAddress o e) ((e.tag.text? "alt").map Markdown.escapeText)]
  | video (hcategory : Dom.categoryOf o.metadata.wanted e.name = .video) :
      Made e [.video (videoAddress e) ((e.tag.text? "poster").map Markdown.escapeText)
        (if e.tag.hasAttr "controls" then some true else none)]
  | list {items : List (List Node)}
      (hcategory : Dom.categoryOf o.metadata.wanted e.name = .list)
      (h : List.Forall₂ made e.children items) : Made e [.list (e.name == "ol") items]
  | lineBreak (hcategory : Dom.categoryOf o.metadata.wanted e.name = .lineBreak) :
      Made e [.text "\n"]
  | table {rows : List (List Cell)}
      (hcategory : Dom.categoryOf o.metadata.wanted e.name = .table)
      (h : List.Forall₂ (fun row cells => MadeCells o made 0 (cellElements row) cells)
        (e.named "tr") rows) : Made e [tableOf o e rows]
  | head (m : Markdown.Metadata)
      (hcategory : Dom.categoryOf o.metadata.wanted e.name = .head)
      (hmetadata : (extractMetadata o.metadata.isExtended e).result = .ok m) :
      Made e [.metadata m]
  | dropped (hcategory : Dom.categoryOf o.metadata.wanted e.name = .dropped) : Made e []
  | emphasis (style : Markdown.Emphasis) {nodes : List Node}
      (hcategory : Dom.categoryOf o.metadata.wanted e.name = .emphasis style)
      (hwords : Text.isAllBlank e.text = false) (h : made e nodes) : Made e [.emphasis style nodes]
  | code (hcategory : Dom.categoryOf o.metadata.wanted e.name = .code) : Made e (lowerCode e)
  | quote {nodes : List Node} (hcategory : Dom.categoryOf o.metadata.wanted e.name = .quote)
      (h : made e nodes) : Made e [.quote nodes]
  | semantic (element : String) {nodes : List Node}
      (hcategory : Dom.categoryOf o.metadata.wanted e.name = .semantic element)
      (h : made e nodes) : Made e [.semantic element nodes]
  | passed {nodes : List Node} (hcategory : Dom.categoryOf o.metadata.wanted e.name = .unhandled)
      (h : made e nodes) : Made e nodes

/-- What is made of a child of an element. -/
inductive MadeChild (parent : Dom.Element) : Dom.Node → List Node → Prop where
  | text (content : String) : MadeChild parent (.text content) (textNodes content)
  | special (kind : Dom.Special) (content : String) : MadeChild parent (.special kind content) []
  | element (tag : Dom.Tag) (children : List Dom.Node) {nodes : List Node}
      (h : Made o made ⟨parent.name, parent.innerRole, tag, children⟩ nodes) :
      MadeChild parent (.element tag children) nodes

end

section

variable {o : Options} {made : Dom.Element → List Node → Prop}

/-- What holds of every cell that can be made of some elements holds of all cells of a row. -/
theorem MadeCells.forall_cell {good : Cell → Prop} {position : Nat}
    {elements : List Dom.Element} {cells : List Cell} (h : MadeCells o made position elements cells)
    (hplain : ∀ d ∈ elements, d.holdsOnlyText = true → ∀ position,
      good (.plain (String.ofList (Markdown.escape (Text.trim d.text))) (marksAt o position d)))
    (hrich : ∀ d ∈ elements, ∀ content, made d content → ∀ position,
      good (.rich content (marksAt o position d))) : ∀ cell ∈ cells, good cell := by
  induction h with
  | nil => exact List.forall_mem_nil _
  | plain position cell honly _ ih =>
      rcases List.forall_mem_cons.mp hplain with ⟨hcell, hplain⟩
      rcases List.forall_mem_cons.mp hrich with ⟨_, hrich⟩
      exact List.forall_mem_cons.mpr ⟨hcell honly position, ih hplain hrich⟩
  | rich position cell content _ hcontent _ ih =>
      rcases List.forall_mem_cons.mp hplain with ⟨_, hplain⟩
      rcases List.forall_mem_cons.mp hrich with ⟨hcell, hrich⟩
      exact List.forall_mem_cons.mpr ⟨hcell content hcontent position, ih hplain hrich⟩

/-- What holds of the cells of a separator, and of every cell that can be made of an element below
    a table, holds of all cells of the table. -/
theorem tableOf_forall_cell (good : Cell → Prop) {e : Dom.Element} {rows : List (List Cell)}
    (h : MadeRows o made e rows) (hseparator : good (.plain "---" CellMarks.none))
    (hplain : ∀ d ∈ e.descendants, d.name = "th" ∨ d.name = "td" → d.holdsOnlyText = true →
      ∀ position,
        good (.plain (String.ofList (Markdown.escape (Text.trim d.text))) (marksAt o position d)))
    (hrich : ∀ d ∈ e.descendants, ∀ content, made d content → ∀ position,
      good (.rich content (marksAt o position d))) :
    ∃ all colIds, tableOf o e rows = .table all colIds ∧ ∀ row ∈ all, ∀ cell ∈ row, good cell := by
  rcases mem_rows_tableOf o e rows with ⟨all, colIds, htable, hall⟩
  refine ⟨all, colIds, htable, fun row hrow => ?_⟩
  rcases hall row hrow with hrow | ⟨width, rfl⟩
  · rcases Traced.exists_of_mem_right h hrow with ⟨element, helement, hcells⟩
    -- The cells of a row are below the row, which is below the table.
    have hbelow := Dom.Element.descendants_subset e element (List.mem_filter.mp helement).1
    refine hcells.forall_cell (fun d hd => ?_) fun d hd => ?_
    · rcases List.mem_filter.mp hd with ⟨hd, hname⟩
      rw [Bool.or_eq_true, beq_iff_eq, beq_iff_eq] at hname
      exact hplain d (hbelow hd) hname
    · exact hrich d (hbelow (List.mem_filter.mp hd).1)
  · intro cell hcell
    rw [List.eq_of_mem_replicate hcell]
    exact hseparator

end

section

variable {o : Options} {elements : List Dom.Element}

theorem relativize_made (url : String) :
    (relativize o url).Ends (· = o.cutDomain url) (LoweringFault o elements) := by
  unfold relativize Options.cutDomain
  cases hdomain : o.websiteDomain with
  | none => exact Traced.Ends.pure rfl
  | some domain =>
      cases domain with
      | text s => exact Traced.Ends.pure rfl
      | notText kind => exact Traced.Ends.fail (.domain kind hdomain)

theorem lowerImage_made (e : Dom.Element) :
    (lowerImage o e).Ends
      (· = .image (imageAddress o e) ((e.tag.text? "alt").map Markdown.escapeText))
      (LoweringFault o elements) := by
  unfold lowerImage imageAddress
  by_cases hdata : isInlineImage (e.tag.shown "src") = true
  · simp only [if_pos hdata]
    exact Traced.Ends.pure rfl
  · simp only [if_neg hdata]
    refine (relativize_made _).bind fun src hsrc => ?_
    rw [hsrc]
    exact Traced.Ends.pure rfl

/-- The structured data of a head fails when one of its blocks has an integer of too many digits. -/
theorem extractMetadata_ends {e : Dom.Element} (he : e ∈ elements)
    (hname : Text.foldName e.name = "head") :
    (extractMetadata o.metadata.isExtended e).Ends (fun _ => True)
      (LoweringFault o elements) := by
  unfold extractMetadata
  by_cases hmode : o.metadata.isExtended = true
  · rw [if_pos hmode]
    have hdata : (structuredData e).Ends (fun items => ∀ item ∈ items, True)
        (LoweringFault o elements) :=
      structuredData_ends (fun _ _ _ _ => True.intro) (fun _ _ _ _ => True.intro)
        fun block hscript htype count hread =>
          .number e block count he hname hmode hscript htype hread
    exact hdata.bind fun _ _ => Traced.Ends.pure True.intro
  · rw [if_neg hmode]
    exact Traced.Ends.pure True.intro

variable {made : Dom.Element → List Node → Prop} {lower : Descent}

theorem lowerLink_made {bad : ConversionError → Prop}
    (hbad : ∀ fault, LoweringFault o elements fault → bad fault) (indent : Int) {e : Dom.Element}
    (hcategory : Dom.categoryOf o.metadata.wanted e.name = .link)
    (hlow : (lower indent e).Ends (made e) bad) :
    (lowerLink o lower indent e).Ends (fun node => Made o made e [node]) bad := by
  have hlabel : e.holdsOnlyText = true →
      Made o made e [.link (linkAddress o e) [.text (String.ofList (Text.trim e.text))]] :=
    Made.label hcategory
  have hlink := fun nodes (h : made e nodes) => Made.link hcategory h
  unfold linkAddress at hlabel hlink
  unfold lowerLink
  by_cases hdata : isInlineImage ((e.tag.text? "href").getD "#") = true
  · simp only [if_pos hdata] at hlink ⊢
    exact hlow.bind fun nodes hnodes => Traced.Ends.pure (hlink nodes hnodes)
  · simp only [if_neg hdata] at hlabel hlink ⊢
    -- The address is made relative before the text of the link is asked for.
    refine ((relativize_made _).mono_bad hbad).bind fun href hhref => ?_
    rw [hhref]
    by_cases honly : e.holdsOnlyText = true
    · rw [if_pos honly]
      exact Traced.Ends.pure (hlabel honly)
    · rw [if_neg honly]
      exact hlow.bind fun nodes hnodes => Traced.Ends.pure (hlink nodes hnodes)

section

variable {bad : ConversionError → Prop}

/-- A column is marked if its number does not have too many digits. -/
theorem columnMark_made (position : Nat)
    (hfits : o.trackTableColumns = true → columnBound ≤ position → bad (.tooManyDigits none)) :
    (columnMark o position).Ends
      (fun mark => mark = (if o.trackTableColumns then some (columnId position) else none) ∧
        (o.trackTableColumns = true → position < columnBound)) bad := by
  unfold columnMark
  by_cases htrack : o.trackTableColumns = true
  · rw [if_pos htrack, if_pos htrack]
    cases hbound : Number.boundedNaturalText? position with
    | some digits =>
        -- The number was written, so it is below the bound.
        have hlt : position < columnBound := by
          unfold columnBound
          exact Number.lt_of_boundedNaturalText?_eq_some hbound
        exact Traced.Ends.pure ⟨rfl, fun _ => hlt⟩
    | none =>
        have hle : columnBound ≤ position := by
          unfold columnBound
          exact Number.le_of_boundedNaturalText?_eq_none position hbound
        exact Traced.Ends.fail (hfits htrack hle)
  · rw [if_neg htrack, if_neg htrack]
    exact Traced.Ends.pure ⟨rfl, fun h => absurd h htrack⟩

/-- A cell is made in front of whatever is made of the cells after it. The descent is asked only for
    a cell that holds more than text. -/
theorem lowerCell_made (indent : Int) (position : Nat) (cell : Dom.Element)
    (hlow : cell.holdsOnlyText = false → (lower (indent + 1) cell).Ends (made cell) bad)
    (hfits : o.trackTableColumns = true → columnBound ≤ position → bad (.tooManyDigits none)) :
    (lowerCell o lower indent position cell).Ends
      (fun result => (o.trackTableColumns = true → position < columnBound) ∧
        ∀ rest others, MadeCells o made (position + spanOf cell.tag "colspan") rest others →
          MadeCells o made position (cell :: rest) (result :: others)) bad := by
  have hmark := columnMark_made position hfits
  unfold lowerCell
  by_cases honly : cell.holdsOnlyText = true
  · simp only [if_pos honly]
    refine hmark.bind fun colId hcolId =>
      Traced.Ends.pure ⟨hcolId.2, fun rest others hothers => ?_⟩
    rw [hcolId.1]
    exact .plain position cell honly hothers
  · simp only [if_neg honly]
    rw [Bool.not_eq_true] at honly
    refine (hlow honly).bind fun content hcontent => hmark.bind fun colId hcolId =>
      Traced.Ends.pure ⟨hcolId.2, fun rest others hothers => ?_⟩
    rw [hcolId.1]
    exact .rich position cell content honly hcontent hothers

/-- The cells before a cell take no more columns than all of them. -/
theorem columnsOf_take_le (cells : List Dom.Element) (j : Nat) :
    columnsOf (cells.take j) ≤ columnsOf cells := by
  induction cells generalizing j with
  | nil => rw [List.take_nil]
  | cons cell rest ih =>
      cases j with
      | zero => exact Nat.zero_le _
      | succ j =>
          have hrest := ih j
          rw [List.take_succ_cons, columnsOf, columnsOf]
          omega

/-- The cells of a row begin one after the other, each at the end of those before it. -/
theorem lowerCells_made (indent : Int) (position : Nat) (cells : List Dom.Element)
    (hlow : ∀ cell ∈ cells, cell.holdsOnlyText = false →
      (lower (indent + 1) cell).Ends (made cell) bad)
    (hfits : ∀ j < cells.length, o.trackTableColumns = true →
      columnBound ≤ position + columnsOf (cells.take j) → bad (.tooManyDigits none)) :
    (lowerCells o lower indent position cells).Ends
      (fun results => (o.trackTableColumns = true →
          ∀ j < cells.length, position + columnsOf (cells.take j) < columnBound) ∧
        MadeCells o made position cells results) bad := by
  induction cells generalizing position with
  | nil => exact Traced.Ends.pure ⟨fun _ => nofun, .nil position⟩
  | cons cell rest ih =>
      have hcell := lowerCell_made indent position cell (hlow cell List.mem_cons_self)
        (hfits 0 (Nat.zero_lt_succ _))
      -- Each cell moves the position on, so the others start behind its span.
      have hrest := ih (position + spanOf cell.tag "colspan")
        (fun c hc => hlow c (List.mem_cons_of_mem cell hc)) fun j hj htrack hle => by
          refine hfits (j + 1) (Nat.succ_lt_succ hj) htrack ?_
          rw [List.take_succ_cons, columnsOf, ← Nat.add_assoc]
          exact hle
      unfold lowerCells
      refine hcell.bind fun result hresult => hrest.bind fun others hothers =>
        Traced.Ends.pure ⟨fun htrack j hj => ?_, hresult.2 rest others hothers.2⟩
      cases j with
      | zero => exact hresult.1 htrack
      | succ j =>
          rw [List.take_succ_cons, columnsOf, ← Nat.add_assoc]
          exact hothers.1 htrack j (Nat.lt_of_succ_lt_succ hj)

/-- A table is made of its rows once all of them are lowered. -/
theorem lowerTable_eq (indent : Int) (e : Dom.Element) :
    lowerTable o lower indent e =
      Traced.each (fun row => lowerCells o lower indent 0 (cellElements row)) (e.named "tr") >>=
        fun rows => pure (tableOf o e rows) := by
  unfold lowerTable
  refine congrArg (bind _) (funext fun rows => ?_)
  unfold tableOf
  cases rows with
  | nil => rfl
  | cons first others =>
      cases e.named "tr" with
      | nil => rfl
      | cons header _ =>
          simp only
          by_cases hheader : (header.first? "th").isSome = true
          · rw [if_pos hheader, if_pos hheader]
          · rw [if_neg hheader, if_neg hheader]

/-- What has to be known of the cells, and of where they begin, to know what is made of a table; and
    where they begin in a table that is made. -/
theorem lowerTable_fits (indent : Int) {e : Dom.Element}
    (hlow : ∀ row ∈ e.named "tr", ∀ cell ∈ cellElements row, cell.holdsOnlyText = false →
      (lower (indent + 1) cell).Ends (made cell) bad)
    (hfits : ∀ row ∈ e.named "tr", ∀ j < (cellElements row).length, o.trackTableColumns = true →
      columnBound ≤ columnsOf ((cellElements row).take j) → bad (.tooManyDigits none)) :
    (lowerTable o lower indent e).Ends
      (fun node => (∀ row ∈ e.named "tr", o.trackTableColumns = true →
          ∀ j < (cellElements row).length,
            columnsOf ((cellElements row).take j) < columnBound) ∧
        ∃ rows, MadeRows o made e rows ∧ node = tableOf o e rows) bad := by
  have hrow : ∀ row ∈ e.named "tr", (lowerCells o lower indent 0 (cellElements row)).Ends
      (fun cells => (o.trackTableColumns = true → ∀ j < (cellElements row).length,
          columnsOf ((cellElements row).take j) < columnBound) ∧
        MadeCells o made 0 (cellElements row) cells) bad := by
    intro row hrow
    have hcells := lowerCells_made indent 0 _ (hlow row hrow) fun j hj htrack hle => by
      rw [Nat.zero_add] at hle
      exact hfits row hrow j hj htrack hle
    simp only [Nat.zero_add] at hcells
    exact hcells
  rw [lowerTable_eq]
  refine (Traced.Ends.each _ _ hrow).bind fun rows hrows => Traced.Ends.pure ?_
  rcases (List.forall₂_and_left _ _).mp hrows with ⟨hnear, hmade⟩
  exact ⟨hnear, rows, hmade, rfl⟩

theorem lowerTable_rows (indent : Int) {e : Dom.Element}
    (hlow : ∀ row ∈ e.named "tr", ∀ cell ∈ cellElements row, cell.holdsOnlyText = false →
      (lower (indent + 1) cell).Ends (made cell) bad)
    (hfits : ∀ row ∈ e.named "tr", ∀ j < (cellElements row).length, o.trackTableColumns = true →
      columnBound ≤ columnsOf ((cellElements row).take j) → bad (.tooManyDigits none)) :
    (lowerTable o lower indent e).Ends
      (fun node => ∃ rows, MadeRows o made e rows ∧ node = tableOf o e rows) bad :=
  (lowerTable_fits indent hlow hfits).mono fun _ hnode => hnode.2

end

theorem lowerTable_made {bad : ConversionError → Prop}
    (hbad : ∀ fault, LoweringFault o elements fault → bad fault) (indent : Int) {e : Dom.Element}
    (hsub : e.descendants ⊆ elements)
    (hlow : ∀ indent, ∀ d ∈ e.descendants, (lower indent d).Ends (made d) bad) :
    (lowerTable o lower indent e).Ends
      (fun node => ∃ rows, MadeRows o made e rows ∧ node = tableOf o e rows) bad := by
  refine lowerTable_rows indent (fun row hrow cell hcell _ => ?_) fun row hrow j _ htrack hfar => ?_
  · have hbelow := Dom.Element.descendants_subset e row (List.mem_filter.mp hrow).1
    exact hlow _ cell (hbelow (List.mem_filter.mp hcell).1)
  · have hwide := Nat.le_trans hfar (columnsOf_take_le _ j)
    rw [Dom.Element.named, List.mem_filter, beq_iff_eq] at hrow
    exact hbad _ (.columns row (hsub hrow.1) hrow.2 htrack hwide)

/-- What an element is lowered to when its rule is checked against a descent: what the rule makes,
    or the answer of the hook on elements without a rule. -/
theorem lowerElement_ends {good : List Node → Prop} {bad : ConversionError → Prop}
    (hbad : ∀ fault, LoweringFault o elements fault → bad fault) (indent : Int) {e : Dom.Element}
    (hsub : e :: e.descendants ⊆ elements)
    (hlow : ∀ indent, ∀ d ∈ e :: e.descendants, (lower indent d).Ends (made d) bad)
    (hgood : ∀ nodes, Made o made e nodes → good nodes)
    (hask : Dom.categoryOf o.metadata.wanted e.name = .unhandled →
      (askHook (o.shownTo o.unhandledElement) (.element e.tag e.nodes) indent).Ends
        (fun answer => ∀ node nodes, answer = some (node :: nodes) → good (node :: nodes)) bad) :
    (lowerElement o lower indent e).Ends good bad := by
  have hself := fun indent => hlow indent e List.mem_cons_self
  have hbelow := fun indent d hd => hlow indent d (List.mem_cons_of_mem e hd)
  have hone : ∀ nodes, Made o made e nodes → (pure nodes : Conversion (List Node)).Ends good bad :=
    fun nodes h => Traced.Ends.pure (hgood nodes h)
  -- Several rules lower the element and put the nodes into one.
  have hwrap : ∀ (node : List Node → Node), (∀ nodes, made e nodes → Made o made e [node nodes]) →
      ((lower indent e >>= fun nodes => pure [node nodes]) : Conversion (List Node)).Ends
        good bad := fun node hnode =>
    (hself indent).bind fun nodes hnodes => hone _ (hnode nodes hnodes)
  unfold lowerElement
  refine (Traced.Ends.debugIf _ _).bind fun _ _ => ?_
  cases hcategory : Dom.categoryOf o.metadata.wanted e.name with
  | heading level =>
      by_cases hblank : Text.isAllBlank e.text = true
      · simp only [if_pos hblank]
        exact hone _ (.blank hblank)
      · simp only [if_neg hblank]
        rw [Bool.not_eq_true] at hblank
        exact hwrap (.heading level) fun _ h => .heading level hcategory hblank h
  | paragraph =>
      exact (hself indent).bind fun _ h => hone _ (.paragraph hcategory h)
  | link =>
      exact (lowerLink_made hbad indent hcategory (hself indent)).bind fun _ h => hone _ h
  | image =>
      refine ((lowerImage_made e).mono_bad hbad).bind fun node hnode => hone _ ?_
      rw [hnode]
      exact .image hcategory
  | video => exact hone _ (.video hcategory)
  | list =>
      refine (Traced.Ends.each _ _ fun c hc => hbelow (indent + 1) c
        (Dom.Element.mem_descendants_of_mem_children hc)).bind fun items hitems => ?_
      exact hone _ (.list hcategory hitems)
  | lineBreak => exact hone _ (.lineBreak hcategory)
  | table =>
      refine (lowerTable_made hbad indent (List.Subset.trans (List.subset_cons_self _ _) hsub)
        hbelow).bind fun node hnode => hone _ ?_
      rcases hnode with ⟨rows, hrows, rfl⟩
      exact .table hcategory hrows
  | head =>
      have hname := foldName_eq_head hcategory
      have hends := extractMetadata_ends (o := o) (hsub List.mem_cons_self) hname
      exact (hends.mono_bad hbad).result.bind fun m hm => hone _ (.head m hcategory hm)
  | dropped => exact hone _ (.dropped hcategory)
  | emphasis style =>
      by_cases hblank : Text.isAllBlank e.text = true
      · simp only [if_pos hblank]
        exact hone _ (.blank hblank)
      · simp only [if_neg hblank]
        rw [Bool.not_eq_true] at hblank
        exact hwrap (.emphasis style) fun _ h => .emphasis style hcategory hblank h
  | code => exact hone _ (.code hcategory)
  | quote => exact hwrap .quote fun _ h => .quote hcategory h
  | semantic element => exact hwrap (.semantic element) fun _ h => .semantic element hcategory h
  | unhandled =>
      -- An empty answer counts as none, so the element is passed through.
      have hpassed := (hself (indent + 1)).mono fun nodes h => hgood nodes (.passed hcategory h)
      refine (hask hcategory).bind fun answer hanswer => ?_
      match answer with
      | none => exact hpassed
      | some [] => exact hpassed
      | some (node :: nodes) => exact Traced.Ends.pure (hanswer node nodes rfl)

/-- The same without a hook. -/
theorem lowerElement_made (hhook : o.unhandledElement = none) (indent : Int) {e : Dom.Element}
    (hsub : e :: e.descendants ⊆ elements)
    (hlow : ∀ indent, ∀ d ∈ e :: e.descendants,
      (lower indent d).Ends (made d) (LoweringFault o elements)) :
    (lowerElement o lower indent e).Ends (Made o made e) (LoweringFault o elements) := by
  refine lowerElement_ends (fun _ h => h) indent hsub hlow (fun _ h => h) fun _ => ?_
  rw [hhook]
  exact Traced.Ends.pure nofun

theorem lowerChild_made (ho : o.WithoutElementHooks) (indent : Int) (parent : Dom.Element)
    (child : Dom.Node) (hsub : child.elements parent.name parent.innerRole ⊆ elements)
    (hlow : ∀ indent, ∀ d ∈ child.elements parent.name parent.innerRole,
      (lower indent d).Ends (made d) (LoweringFault o elements)) :
    (lowerChild o lower indent parent child).Ends (MadeChild o made parent child)
      (LoweringFault o elements) := by
  unfold lowerChild
  rw [ho.1]
  cases child with
  | text content =>
      have htext : MadeChild o made parent (.text content) (textNodes content) := .text content
      unfold textNodes at htext
      change (lowerText o content).Ends _ _
      unfold lowerText
      -- A text that is blank leaves no node.
      by_cases hempty : (Text.trim content.toList).isEmpty = true
      · simp only [if_pos hempty] at htext ⊢
        exact Traced.Ends.pure htext
      · simp only [if_neg hempty] at htext ⊢
        exact (Traced.Ends.debugIf _ _).bind fun _ _ => Traced.Ends.pure htext
  | special kind content => exact Traced.Ends.pure (.special kind content)
  | element tag nodes =>
      exact (lowerElement_made (e := ⟨parent.name, parent.innerRole, tag, nodes⟩) ho.2 indent hsub
        hlow).mono fun _ h => .element tag nodes h

theorem flatten_made (e : Dom.Element) :
    (flatten o e).Ends (· = flattened e) (LoweringFault o elements) :=
  (Traced.Ends.warn _).bind fun _ _ => Traced.Ends.pure rfl

end

section

variable {o : Options} (made : Nat → Dom.Element → List Node → Prop)

/-- The children of an element are lowered with one level less than the element. -/
theorem lowerChild_levels_made (ho : o.WithoutElementHooks) {levels : Nat}
    (hlevels : ∀ indent d, (lowerLevels o levels indent d).Ends (made levels d)
      (LoweringFault o d.descendants))
    (indent : Int) (e : Dom.Element) (child : Dom.Node) (hchild : child ∈ e.nodes) :
    (lowerChild o (lowerLevels o levels) indent e child).Ends (MadeChild o (made levels) e child)
      (LoweringFault o e.descendants) := by
  have hsub := Dom.Element.elements_subset_of_mem_nodes hchild
  refine lowerChild_made ho indent e child hsub fun indent d hd => ?_
  exact (hlevels indent d).mono_bad fun _ =>
    LoweringFault.mono (Dom.Element.descendants_subset e d (hsub hd))

/-- What holds of the text that an element is flattened to, and goes over from the parts that
    are made of the children to the whole, holds of all that lowering makes. -/
theorem lowerLevels_made (ho : o.WithoutElementHooks) (hflat : ∀ e, made 0 e (flattened e))
    (hjoin : ∀ levels e parts, List.Forall₂ (MadeChild o (made levels) e) e.nodes parts →
      made (levels + 1) e parts.flatten) (levels : Nat) (indent : Int) (e : Dom.Element) :
    (lowerLevels o levels indent e).Ends (made levels e) (LoweringFault o e.descendants) := by
  induction levels generalizing indent e with
  | zero =>
      refine (flatten_made e).mono fun nodes hnodes => ?_
      rw [hnodes]
      exact hflat e
  | succ levels ih =>
      unfold lowerLevels
      refine (Traced.Ends.collect_parts _ e.nodes
        (lowerChild_levels_made made ho ih indent e)).mono fun nodes hnodes => ?_
      rcases hnodes with ⟨parts, hparts, rfl⟩
      exact hjoin levels e parts hparts

/-- What holds of the nodes for the levels that the limit leaves holds from the top of a conversion.
    A limit that cannot be compared with depths is one more way to fail. -/
theorem lower_ends {good : List Node → Prop} {indent : Int} {e : Dom.Element}
    (h : (lowerLevels o (levelsWithin o.maxDepth e) indent e).Ends good
      (LoweringFault o e.descendants)) :
    (lower o indent e).Ends good (LoweringFault o e.descendants) := by
  unfold lower
  cases hlimit : o.maxDepth with
  | unordered kind => exact Traced.Ends.fail (.limit kind hlimit)
  | whole | fraction =>
      rw [hlimit] at h
      exact h

/-- What `lowerLevels_made` says of the levels, from the top of a conversion. -/
theorem lower_made (ho : o.WithoutElementHooks) (hflat : ∀ e, made 0 e (flattened e))
    (hjoin : ∀ levels e parts, List.Forall₂ (MadeChild o (made levels) e) e.nodes parts →
      made (levels + 1) e parts.flatten) (indent : Int) (e : Dom.Element) :
    (lower o indent e).Ends (made (levelsWithin o.maxDepth e) e)
      (LoweringFault o e.descendants) :=
  lower_ends (lowerLevels_made made ho hflat hjoin (levelsWithin o.maxDepth e) indent e)

end

end PageDistill
