import PageDistill.Proofs.Dom.Tidy
import PageDistill.Proofs.Lower.Separators
import PageDistill.Proofs.Outcomes

/-!
# Lowering Keeps the Text

The text of a tidy page is the text of its tree: nothing is lost, said twice or moved.

The text of a page gets into the tree in five ways. Most of it is lowered child by child.
Code and the links and cells that hold only text take what their element says in one piece;
cells escape it on the way. Other cells are lowered by themselves. Headings and emphasis are
dropped when their element says nothing to be seen. On a tidy page what an element says is
the text below it, so all of these agree about what the text is.

The induction is on the levels that are left, as the recursion is. It carries that the
element is tidy and not nested deeper than these levels (`Ready`). Every rule of lowering is
checked against a descent that keeps the text one level further down (`KeepsBelow`), so the
rules know of each other only through that.

Lowering a tidy page fails in one way. When columns are tracked, a cell has the number of its
first column written out, and a number of more than 4300 digits is refused. This needs a row
of so many columns, and the theorem says so.

## Main definitions

* `Options.WithoutElementHooks`: No hook on elements is set.
* `DepthLimit.Allows`: A nesting within the limit.
* `columnsOf`, `columnBound`: The columns of a row of the page, and when they are too many.
* `Ready`: An element that the levels left are enough for.
* `KeepsBelow`: A descent that keeps the text.

## Theorems

* `lower_of_ordered`, `lt_levelsWithin`: The levels that lowering goes down.
* `keepsBelow_lowerLevels`: Every number of levels keeps the text.
* `lower_keeps_text`: Lowering keeps the text.
-/

namespace PageDistill

open Text (visible)
open Markdown (Node Cell CellMarks textOf)

/-- No hook on elements is set. -/
def Options.WithoutElementHooks (o : Options) : Prop :=
  o.overrideElement = none ∧ o.unhandledElement = none

/-- Options under which lowering follows its own rules: no hooks, no metadata, and a domain
    that is text if there is one. -/
structure Options.Plain (o : Options) : Prop where
  hooks : o.WithoutElementHooks
  metadata : o.metadata.wanted = false
  domain : ∀ kind, o.websiteDomain ≠ some (.notText kind)

/-- Whether a limit lets elements be nested so deep. -/
def DepthLimit.Allows (limit : DepthLimit) (height : Nat) : Prop :=
  match limit with
  | .unordered _ => False
  | limit => ∀ depth, limit.deepest? = some depth → (height : Int) ≤ depth

instance (limit : DepthLimit) (height : Nat) : Decidable (limit.Allows height) :=
  match limit with
  | .unordered _ => isFalse id
  | .whole n => inferInstanceAs (Decidable (∀ depth ∈ (DepthLimit.whole n).deepest?, _ ≤ depth))
  | .fraction x =>
    inferInstanceAs (Decidable (∀ depth ∈ (DepthLimit.fraction x).deepest?, _ ≤ depth))

/-- A limit that allows some nesting can be compared with depths, and the nesting is within it. -/
theorem DepthLimit.allows_iff {limit : DepthLimit} {height : Nat} :
    limit.Allows height ↔ (∀ kind, limit ≠ .unordered kind) ∧
      ∀ depth, limit.deepest? = some depth → (height : Int) ≤ depth := by
  cases limit with
  | unordered kind => exact ⟨False.elim, fun h => h.1 kind rfl⟩
  | whole | fraction => exact ⟨fun h => ⟨nofun, h⟩, fun h => h.2⟩

theorem DepthLimit.Allows.mono {limit : DepthLimit} {height less : Nat} (h : limit.Allows height)
    (hle : less ≤ height) : limit.Allows less := by
  rw [allows_iff] at h ⊢
  refine ⟨h.1, fun depth hdeepest => ?_⟩
  have hheight := h.2 depth hdeepest
  omega

/-- The number of columns that the cells of a row of the page ask for. -/
def columnsOf : List Dom.Element → Nat
  | [] => 0
  | cell :: cells => spanOf cell.tag "colspan" + columnsOf cells

/-- The least number of a column that has too many digits to be written out. -/
def columnBound : Nat := Nat.pow 10 Number.mostDigits

/-- An element that lowering can go down from, with some levels left: it is tidy, the levels
    are enough for it, and refusing the columns of its rows is among the errors. -/
structure Ready (o : Options) (bad : ConversionError → Prop) (levels : Nat)
    (around : List String) (e : Dom.Element) : Prop where
  tidy : e.Tidy around
  shallow : Dom.heightOf e.nodes < levels
  columns : o.trackTableColumns = true → ∀ row ∈ e.named "tr",
    columnBound ≤ columnsOf (cellElements row) → bad (.tooManyDigits none)

/-- A descent that keeps the text of the elements it is called for. -/
def KeepsBelow (o : Options) (bad : ConversionError → Prop) (levels : Nat) (lower : Descent) :
    Prop :=
  ∀ indent around e, Ready o bad levels around e →
    (lower indent e).Ends (Holds (Dom.textOf e.nodes)) bad

/-- Whether a name can have a category of a tidy page. Only the categories whose rules look
    at more than the text are tied to names. -/
def fitsName (name : String) : Dom.Category → Bool
  | .image => name == "img"
  | .lineBreak => name == "br"
  | .list => name == "ul" || name == "ol"
  | .table => name == "table"
  | .head => false
  | .dropped => false
  | .video => false
  | _ => true

theorem fitsName_categoryOf (name : String) (hfold : Text.foldName name = name)
    (hname : name ∉ Dom.untidyNames) : fitsName name (Dom.categoryOf false name) = true := by
  have hnamed : ∀ entry ∈ Dom.namedCategories,
      fitsName entry.1 entry.2 = true ∨ entry.1 ∈ Dom.untidyNames := by decide
  unfold Dom.categoryOf
  rw [hfold]
  rcases Dom.categoryOfFolded_cases false name with ⟨hwanted, _⟩ | ⟨hdropped, _⟩ | ⟨_, heq⟩ |
    hentry | heq
  · exact absurd hwanted (by decide)
  · have hsub : ∀ dropped ∈ Dom.droppedNames, dropped ∈ Dom.untidyNames := by decide
    exact absurd (hsub name hdropped) hname
  · rw [heq]
    rfl
  · exact (hnamed _ hentry).resolve_right hname
  · rw [heq]
    rfl

section

variable {o : Options} {bad : ConversionError → Prop} {levels : Nat} {around : List String}
variable {e : Dom.Element}

theorem named_subset {d : Dom.Element} (hd : d.descendants ⊆ e.descendants) (name : String) :
    d.named name ⊆ e.named name := by
  intro row hrow
  rw [Dom.Element.named, List.mem_filter] at hrow ⊢
  exact ⟨hd hrow.1, hrow.2⟩

/-- A child is ready with one level less. -/
theorem Ready.child {c : Dom.Element} (h : Ready o bad (levels + 1) around e)
    (hc : c ∈ e.children) : Ready o bad levels (around ++ [c.name]) c := by
  have hheight := Dom.Element.heightOf_lt_of_mem_children hc
  have hshallow := h.shallow
  have hrows := named_subset (Dom.Element.descendants_subset_of_mem_children hc) "tr"
  exact ⟨h.tidy.child hc, by omega, fun htrack row hrow => h.columns htrack row (hrows hrow)⟩

/-- An element further down is as ready as the one it is in. -/
theorem Ready.descendant {d : Dom.Element} (h : Ready o bad levels around e)
    (hd : d ∈ e.descendants) : ∃ between, Ready o bad levels (around ++ between ++ [d.name]) d := by
  have hheight := Dom.Element.heightOf_lt e d hd
  have hshallow := h.shallow
  have hrows := named_subset (Dom.Element.descendants_subset e d hd) "tr"
  rcases h.tidy.descendant hd with ⟨between, htidy⟩
  exact ⟨between, htidy, by omega, fun htrack row hrow => h.columns htrack row (hrows hrow)⟩

/-- A descent keeps the text of everything below an element that it is called for. -/
theorem KeepsBelow.descendant {lower : Descent} (hlower : KeepsBelow o bad levels lower)
    (h : Ready o bad levels around e) {d : Dom.Element} (hd : d ∈ e.descendants) (indent : Int) :
    (lower indent d).Ends (Holds (Dom.textOf d.nodes)) bad := by
  rcases h.descendant hd with ⟨between, hready⟩
  exact hlower indent _ d hready

/-- What an element below says is the text below it. -/
theorem Ready.text_eq_textOf (h : Ready o bad levels around e) {d : Dom.Element}
    (hd : d ∈ e.descendants) : d.text = Dom.textOf d.nodes := by
  rcases h.descendant hd with ⟨between, hready⟩
  exact hready.tidy.text_eq_textOf (h.tidy.named d hd)

variable {lower : Descent} (ho : o.Plain) (hlower : KeepsBelow o bad levels lower)

include ho

theorem relativize_ends (url : String) : (relativize o url).Ends (fun _ => True) bad := by
  unfold relativize
  cases hdomain : o.websiteDomain with
  | none => exact Traced.Ends.pure True.intro
  | some domain =>
      cases domain with
      | text s => exact Traced.Ends.pure True.intro
      | notText kind => exact absurd hdomain (ho.domain kind)

theorem lowerImage_ends (c : Dom.Element) :
    (lowerImage o c).Ends (fun node => ∃ src alt, node = .image src alt) bad := by
  unfold lowerImage
  by_cases hdata : isInlineImage (c.tag.shown "src") = true
  · simp only [if_pos hdata]
    exact Traced.Ends.pure ⟨_, _, rfl⟩
  · simp only [if_neg hdata]
    refine (relativize_ends ho _).bind fun src _ => ?_
    exact Traced.Ends.pure ⟨_, _, rfl⟩

omit ho

/-- Code holds the text of its element. -/
theorem lowerCode_holds {c : Dom.Element} (htext : c.text = Dom.textOf c.nodes) :
    Holds (Dom.textOf c.nodes) (lowerCode c) := by
  have hvisible : visible (Text.trim c.text) = visible (Dom.textOf c.nodes) := by
    rw [Text.visible_trim, htext]
  unfold lowerCode
  by_cases hempty : (Text.trim c.text).isEmpty = true
  · simp only [if_pos hempty]
    rw [List.isEmpty_iff.mp hempty] at hvisible
    exact Holds.nil hvisible.symm
  · simp only [if_neg hempty]
    refine Holds.single _ ?_
    rw [Node.ownText, String.toList_ofList]
    exact hvisible

include ho hlower

/-- A link holds the text of its element. -/
theorem lowerLink_keeps (indent : Int) {c : Dom.Element} (h : Ready o bad levels around c)
    (htext : c.text = Dom.textOf c.nodes) :
    (lowerLink o lower indent c).Ends (fun node => Holds (Dom.textOf c.nodes) [node]) bad := by
  have hlow := hlower indent around c h
  unfold lowerLink
  by_cases hdata : isInlineImage ((c.tag.text? "href").getD "#") = true
  · simp only [if_pos hdata]
    refine hlow.bind fun nodes hnodes => ?_
    exact Traced.Ends.pure (hnodes.wrap (.link _) (.link _) fun _ => rfl)
  · simp only [if_neg hdata]
    -- What becomes of the address has no part in the text.
    refine (relativize_ends ho _).bind fun href _ => ?_
    by_cases honly : c.holdsOnlyText = true
    · rw [if_pos honly]
      refine Traced.Ends.pure (Holds.single _ ?_)
      rw [Node.ownText, Markdown.textOf_singleton, Node.ownText, String.toList_ofList,
        Text.visible_trim, htext]
    · rw [if_neg honly]
      refine hlow.bind fun nodes hnodes => ?_
      exact Traced.Ends.pure (hnodes.wrap (.link _) (.link _) fun _ => rfl)

omit ho hlower

theorem columnMark_ends (position : Nat)
    (h : o.trackTableColumns = true → columnBound ≤ position →
      bad (.tooManyDigits none)) :
    (columnMark o position).Ends (fun _ => True) bad := by
  unfold columnMark
  by_cases htrack : o.trackTableColumns = true
  · rw [if_pos htrack]
    cases hbound : Number.boundedNaturalText? position with
    | some digits => exact Traced.Ends.pure True.intro
    | none =>
        have hle : columnBound ≤ position := by
          unfold columnBound
          exact Number.le_of_boundedNaturalText?_eq_none position hbound
        exact Traced.Ends.fail (h htrack hle)
  · rw [if_neg htrack]
    exact Traced.Ends.pure True.intro

include hlower

/-- A cell holds the text of its element, if its column can be numbered. -/
theorem lowerCell_keeps (indent : Int) (position : Nat) (h : Ready o bad levels around e)
    {cell : Dom.Element} (hcell : cell ∈ e.descendants)
    (hcolumns : o.trackTableColumns = true → columnBound ≤ position →
      bad (.tooManyDigits none)) :
    (lowerCell o lower indent position cell).Ends (fun result => ∀ more cells,
      CellsHold more cells → CellsHold (Dom.textOf cell.nodes ++ more) (result :: cells)) bad := by
  have hmark := columnMark_ends position hcolumns
  unfold lowerCell
  by_cases honly : cell.holdsOnlyText = true
  · simp only [if_pos honly]
    refine hmark.bind fun colId _ => Traced.Ends.pure fun more cells hmore => ?_
    refine CellsHold.plain _ _ ?_ hmore
    rw [undone, String.toList_ofList, Markdown.unescape_escape, Text.visible_trim,
      h.text_eq_textOf hcell]
  · simp only [if_neg honly]
    refine (hlower.descendant h hcell _).bind fun content hcontent => ?_
    refine hmark.bind fun colId _ => Traced.Ends.pure fun more cells hmore => ?_
    exact CellsHold.rich _ hcontent hmore

/-- The cells of a row hold what the cells of the page say. Each begins where the spans of those
    before it end, so all begin before the end of the row. -/
theorem lowerCells_keeps (indent : Int) (position : Nat) (h : Ready o bad levels around e)
    (cells : List Dom.Element) (hcells : cells ⊆ e.descendants)
    (hcolumns : o.trackTableColumns = true →
      columnBound ≤ position + columnsOf cells →
      bad (.tooManyDigits none)) :
    (lowerCells o lower indent position cells).Ends
      (CellsHold (cells.flatMap fun c => Dom.textOf c.nodes)) bad := by
  induction cells generalizing position with
  | nil => exact Traced.Ends.pure CellsHold.nil
  | cons cell rest ih =>
      rw [columnsOf] at hcolumns
      unfold lowerCells
      -- This cell begins at the position, and the next one where its span ends.
      refine (lowerCell_keeps hlower indent position h (hcells List.mem_cons_self)
        fun htrack hle => hcolumns htrack (by omega)).bind fun result hresult => ?_
      refine (ih (position + spanOf cell.tag "colspan")
        (fun c hc => hcells (List.mem_cons_of_mem cell hc))
        fun htrack hle => hcolumns htrack (by omega)).bind fun others hothers => ?_
      exact Traced.Ends.pure (hresult _ others hothers)

/-- A table holds the text of its element, which stands in cells only. -/
theorem lowerTable_keeps (indent : Int) {table : Dom.Element}
    (h : Ready o bad levels (around ++ ["table"]) table) :
    (lowerTable o lower indent table).Ends
      (fun node => Holds (Dom.textOf table.nodes) [node]) bad := by
  have htext : visible (Dom.textOf table.nodes) = (table.named "tr").flatMap fun row =>
      visible ((cellElements row).flatMap fun cell => Dom.textOf cell.nodes) := by
    rw [h.tidy.visible_table]
    refine List.flatMap_congr fun row _ => ?_
    rw [Text.visible_flatMap]
    rfl
  have hrows : ∀ row ∈ table.named "tr",
      (lowerCells o lower indent 0 (cellElements row)).Ends
        (CellsHold ((cellElements row).flatMap fun cell => Dom.textOf cell.nodes)) bad := by
    intro row hrow
    have hbelow := Dom.Element.descendants_subset table row (List.mem_filter.mp hrow).1
    refine lowerCells_keeps hlower indent 0 h _
      (fun cell hcell => hbelow (List.mem_filter.mp hcell).1) fun htrack hle => ?_
    exact h.columns htrack row hrow (by rw [Nat.zero_add] at hle; exact hle)
  unfold lowerTable
  refine (Traced.Ends.each _ _ hrows).bind fun rows hlowered => ?_
  -- Rows come in step with their elements, so the first row is that of the first element.
  generalize table.named "tr" = rowElements at hlowered htext
  have hrows := hlowered
  cases hlowered with
  | nil => exact Traced.Ends.pure (Holds.table _ hrows htext)
  | @cons row first _ _ _ _ =>
      simp only
      by_cases hheader : (row.first? "th").isSome = true
      · rw [if_pos hheader]
        exact Traced.Ends.pure (Holds.header _ hrows htext)
      · rw [if_neg hheader]
        exact Traced.Ends.pure (Holds.table _ hrows htext)

omit hlower in
-- Headings and emphasis test for text before they are lowered; what fails has none to lose.
theorem keeps_unless_blank {c : Dom.Element} (htext : c.text = Dom.textOf c.nodes)
    {x : Conversion (List Node)} (hx : x.Ends (Holds (Dom.textOf c.nodes)) bad) :
    (if Text.isAllBlank c.text = true then pure [] else x).Ends
      (Holds (Dom.textOf c.nodes)) bad := by
  by_cases hall : Text.isAllBlank c.text = true
  · rw [if_pos hall]
    refine Traced.Ends.pure (Holds.nil ?_)
    rw [← htext]
    exact (Text.visible_eq_nil_iff c.text).mpr hall
  · rw [if_neg hall]
    exact hx

include ho

/-- An element keeps its text, whatever its category. -/
theorem lowerElement_keeps (indent : Int) (h : Ready o bad (levels + 1) around e)
    {c : Dom.Element} (hc : c ∈ e.children) :
    (lowerElement o lower indent c).Ends (Holds (Dom.textOf c.nodes)) bad := by
  have hbelow := Dom.Element.mem_descendants_of_mem_children hc
  have hready := h.child hc
  have htext : c.text = Dom.textOf c.nodes := h.text_eq_textOf hbelow
  have hfits := fitsName_categoryOf c.name (h.tidy.folded c hbelow) (h.tidy.named c hbelow)
  have hlow : ∀ indent, (lower indent c).Ends (Holds (Dom.textOf c.nodes)) bad := fun indent =>
    hlower indent _ c hready
  unfold lowerElement
  rw [ho.metadata]
  refine (Traced.Ends.debugIf _ _).bind fun _ _ => ?_
  cases hcategory : Dom.categoryOf false c.name with
  | heading level =>
      refine keeps_unless_blank htext ((hlow indent).bind fun nodes hnodes => ?_)
      exact Traced.Ends.pure (hnodes.wrap (.heading _) (.heading _) fun _ => rfl)
  | paragraph =>
      -- The line ends that a paragraph adds are not seen.
      refine (hlow indent).bind fun nodes hnodes => ?_
      have hline : Holds [] [.text "\n\n"] := Holds.single _ (by decide)
      have hboth := hnodes.append hline
      rw [List.append_nil] at hboth
      exact Traced.Ends.pure hboth
  | link =>
      refine (lowerLink_keeps ho hlower indent hready htext).bind fun node hnode => ?_
      exact Traced.Ends.pure hnode
  | image =>
      rw [hcategory] at hfits
      have hnodes : c.nodes = [] := h.tidy.childless c hbelow (Or.inl (beq_iff_eq.mp hfits))
      rw [hnodes]
      refine (lowerImage_ends ho c).bind fun node hnode => ?_
      rcases hnode with ⟨src, alt, rfl⟩
      exact Traced.Ends.pure (Holds.single _ rfl)
  | video =>
      rw [hcategory] at hfits
      exact absurd hfits Bool.false_ne_true
  | list =>
      rw [hcategory] at hfits
      have hname : c.name = "ul" ∨ c.name = "ol" := by
        rw [fitsName, Bool.or_eq_true, beq_iff_eq, beq_iff_eq] at hfits
        exact hfits
      have hitem : ∀ item ∈ c.children, item ∈ c.descendants := fun _ =>
        Dom.Element.mem_descendants_of_mem_children
      refine (Traced.Ends.each _ _ fun item h => hlower.descendant hready (hitem item h)
        (indent + 1)).bind fun items hitems => ?_
      exact Traced.Ends.pure (Holds.list _ hitems (h.tidy.visible_list hc hname))
  | lineBreak =>
      rw [hcategory] at hfits
      have hnodes : c.nodes = [] := h.tidy.childless c hbelow (Or.inr (beq_iff_eq.mp hfits))
      rw [hnodes]
      exact Traced.Ends.pure (Holds.single _ (by decide))
  | table =>
      rw [hcategory] at hfits
      rw [beq_iff_eq.mp hfits] at hready
      refine (lowerTable_keeps hlower indent hready).bind fun node hnode => ?_
      exact Traced.Ends.pure hnode
  | head =>
      rw [hcategory] at hfits
      exact absurd hfits Bool.false_ne_true
  | dropped =>
      rw [hcategory] at hfits
      exact absurd hfits Bool.false_ne_true
  | emphasis style =>
      refine keeps_unless_blank htext ((hlow indent).bind fun nodes hnodes => ?_)
      exact Traced.Ends.pure (hnodes.wrap (.emphasis style) (.emphasis style) fun _ => rfl)
  | code => exact Traced.Ends.pure (lowerCode_holds htext)
  | quote =>
      refine (hlow indent).bind fun nodes hnodes => ?_
      exact Traced.Ends.pure (hnodes.wrap .quote .quote fun _ => rfl)
  | semantic element =>
      refine (hlow indent).bind fun nodes hnodes => ?_
      exact Traced.Ends.pure (hnodes.wrap (.semantic element) (.semantic element) fun _ => rfl)
  | unhandled =>
      rw [ho.hooks.2]
      exact hlow (indent + 1)

/-- A child is lowered to nodes that hold its text. -/
theorem lowerChild_keeps (indent : Int) (h : Ready o bad (levels + 1) around e)
    (child : Dom.Node) (hchild : child ∈ e.nodes) :
    (lowerChild o lower indent e child).Ends (Holds child.ownText) bad := by
  unfold lowerChild
  rw [ho.hooks.1]
  cases child with
  | text content =>
      -- Trimming takes blanks only, and a text without others is dropped.
      have hvisible : visible (Text.trim content.toList) = visible content.toList :=
        Text.visible_trim _
      change (lowerText o content).Ends (Holds content.toList) bad
      unfold lowerText
      by_cases hempty : (Text.trim content.toList).isEmpty = true
      · simp only [if_pos hempty]
        rw [List.isEmpty_iff.mp hempty] at hvisible
        exact Traced.Ends.pure (Holds.nil hvisible.symm)
      · simp only [if_neg hempty]
        refine (Traced.Ends.debugIf _ _).bind fun _ _ => Traced.Ends.pure (Holds.single _ ?_)
        rw [Node.ownText, String.toList_ofList]
        exact hvisible
  | special kind content => exact Traced.Ends.pure (Holds.nil rfl)
  | element tag nodes =>
      exact lowerElement_keeps ho hlower indent h
        ((Dom.Element.mem_children_iff e ⟨e.name, e.innerRole, tag, nodes⟩).mpr ⟨hchild, rfl, rfl⟩)

omit hlower

/-- With any number of levels left, the text of elements that are not nested deeper is
    kept. -/
theorem keepsBelow_lowerLevels (levels : Nat) :
    KeepsBelow o bad levels (lowerLevels o levels) := by
  induction levels with
  | zero =>
      intro indent around e h
      exact absurd h.shallow (Nat.not_lt_zero _)
  | succ levels ih =>
      intro indent around e h
      unfold lowerLevels
      -- The children hold their texts one by one, and these in a row are the text.
      refine Traced.Ends.collect (fun nodes => Holds (Dom.textOf nodes)) _ e.nodes
        (Holds.nil rfl) ?_ fun child hchild => ?_
      · intro node rest lowered others hnode hrest
        rw [Dom.textOf_cons]
        exact (hnode.congr (by rw [Dom.textOf_singleton])).append hrest
      · rw [Dom.textOf_singleton]
        exact lowerChild_keeps ho ih indent h child hchild

end

/-- With a limit that can be compared with depths, lowering goes down the levels that it leaves. -/
theorem lower_of_ordered {o : Options} (h : ∀ kind, o.maxDepth ≠ .unordered kind) (indent : Int)
    (e : Dom.Element) :
    lower o indent e = lowerLevels o (levelsWithin o.maxDepth e) indent e := by
  unfold lower
  cases hlimit : o.maxDepth with
  | unordered kind => exact absurd hlimit (h kind)
  | whole | fraction => rfl

theorem lower_of_allows {o : Options} {height : Nat} (h : o.maxDepth.Allows height) (indent : Int)
    (e : Dom.Element) :
    lower o indent e = lowerLevels o (levelsWithin o.maxDepth e) indent e :=
  lower_of_ordered (DepthLimit.allows_iff.mp h).1 indent e

/-- The levels that a limit leaves are more than any nesting that it allows, as long as the
    element is nested so deep. -/
theorem lt_levelsWithin {limit : DepthLimit} {e : Dom.Element} {height : Nat}
    (h : limit.Allows height) (hle : height ≤ Dom.heightOf e.nodes) :
    height < levelsWithin limit e := by
  unfold levelsWithin
  cases hdeepest : limit.deepest? with
  | none => exact Nat.lt_succ_of_le hle
  | some depth =>
      have hdepth := (DepthLimit.allows_iff.mp h).2 depth hdeepest
      simp only
      omega

/-- The levels that a limit leaves are enough for a nesting that it allows. -/
theorem heightOf_lt_levelsWithin (limit : DepthLimit) (e : Dom.Element)
    (h : limit.Allows (Dom.heightOf e.nodes)) : Dom.heightOf e.nodes < levelsWithin limit e :=
  lt_levelsWithin h (Nat.le_refl _)

/-- Lowering keeps the text. Below any element with a tidy page below it, and nested within
    the limit, the visible characters of the tree are those of the page, in the same order.

    There is no tree to keep the text in if columns are tracked and a row is so wide that the
    number of a column has too many digits to be written. Lowering fails then, with the error that
    tells of it, and it fails for no other reason. -/
theorem lower_keeps_text (o : Options) (ho : o.Plain) (indent : Int) (e : Dom.Element)
    (htidy : e.Tidy []) (hdepth : o.maxDepth.Allows (Dom.heightOf e.nodes)) :
    (∃ nodes, (lower o indent e).result = .ok nodes ∧ Holds (Dom.textOf e.nodes) nodes) ∨
      (lower o indent e).result = .error (.tooManyDigits none) ∧ o.trackTableColumns = true ∧
        ∃ row ∈ e.named "tr", columnBound ≤ columnsOf (cellElements row) := by
  have hready : Ready o (fun fault => fault = .tooManyDigits none ∧ o.trackTableColumns = true ∧
      ∃ row ∈ e.named "tr", columnBound ≤ columnsOf (cellElements row))
      (levelsWithin o.maxDepth e) [] e :=
    ⟨htidy, heightOf_lt_levelsWithin o.maxDepth e hdepth,
      fun htrack row hrow hcolumns => ⟨rfl, htrack, row, hrow, hcolumns⟩⟩
  rw [lower_of_allows hdepth]
  rcases (keepsBelow_lowerLevels ho _ indent [] e hready).cases with
    ⟨nodes, hresult, hholds⟩ | ⟨fault, hresult, rfl, htrack, hrow⟩
  · exact Or.inl ⟨nodes, hresult, hholds⟩
  · exact Or.inr ⟨hresult, htrack, hrow⟩

/-- A page with text on every way into the tree: a heading, a link with text alone and one with
    emphasis, a list in a list, code, a table with a header, an escaped cell and a cell with a list,
    and a table in a cell that shows nothing. -/
theorem lower_keeps_text_mixed :
    let plain (name : String) (nodes : List Dom.Node) : Dom.Node := .element ⟨name, []⟩ nodes
    let e : Dom.Element := ⟨"body", .ordinary, ⟨"div", []⟩,
      [plain "h2" [.text " One\u00a0"], .special .comment "no text",
        .element ⟨"a", [("href", .text "/x")]⟩ [.text "two "],
        .element ⟨"a", []⟩ [plain "b" [.text "three"], plain "br" []],
        plain "ul" [.text "\n", plain "li" [.text "four", plain "ol" [plain "li" [.text "five"]]]],
        plain "pre" [plain "code" [.text "six | seven"]],
        plain "table" [plain "tr" [plain "th" [.text "a|b & <c>"],
          .element ⟨"th", [("colspan", .text "2")]⟩ [plain "table" [plain "td" [.text " "]]]],
          plain "tbody" [plain "tr" [plain "td" [plain "ul" [plain "li" [.text "*d*"]]]]]]]⟩
    Options.default.Plain ∧ e.Tidy [] ∧
      Options.default.maxDepth.Allows (Dom.heightOf e.nodes) ∧
      ∃ nodes, (lower Options.default 0 e).result = .ok nodes ∧
        Holds (Dom.textOf e.nodes) nodes := by
  intro plain e
  have hplain : Options.default.Plain := ⟨⟨rfl, rfl⟩, rfl, fun kind h => by cases h⟩
  have htidy : e.Tidy [] := by decide
  have hdepth : Options.default.maxDepth.Allows (Dom.heightOf e.nodes) := by
    intro depth hdeepest
    rw [← Option.some.inj hdeepest]
    decide
  refine ⟨hplain, htidy, hdepth, ?_⟩
  rcases lower_keeps_text Options.default hplain 0 e htidy hdepth with hok | hwide
  · exact hok
  · exact absurd hwide.2.1 Bool.false_ne_true

end PageDistill
