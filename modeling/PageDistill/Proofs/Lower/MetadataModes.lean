import PageDistill.Proofs.Lower.Rules
import PageDistill.Proofs.Markdown.MetadataReplaced

/-!
# The Two Modes of Metadata

What extended metadata changes in a lowered tree.

The mode is looked at where a head is lowered, and nowhere else: both modes want metadata, so
they sort elements alike. What a head says in the extended mode has more in it, and without the
additions it is what the head says in the basic mode. So the basic tree is the extended tree with
the additions taken out of its metadata (`lower_follows`).

There is one exception. Structured data is read in the extended mode only, and an integer of too
many digits in it ends the conversion.

## Main definitions

* `Metadata.basic`: Metadata without the additions of the extended mode.
* `LongNumber`: The error of structured data.

## Theorems

* `basic_headEntries`: The entries of a head in both modes.
* `extractMetadata_follows`: What a head says in both modes.
* `lowerElement_follows`: The rule for an element in both modes.
* `lower_follows`: The trees of an element in both modes.
-/

namespace PageDistill

open Markdown (Node Cell Metadata rewrite rewriteItems rewriteRows rewriteRow onMetadata)
open Traced (Follows)

/-- Metadata without the entries for link previews and the structured data. -/
def Markdown.Metadata.basic (m : Metadata) : Metadata := ⟨m.standard, [], [], none⟩

/-- The error that an integer of too many digits in structured data leads to. -/
def LongNumber : ConversionError → Prop
  | .tooManyDigits count => count.isSome = true
  | _ => False

/-- The nodes of a tree without the additions of the extended mode. -/
abbrev basicNodes : List Node → List Node := rewrite (onMetadata Metadata.basic)

/-- An entry that is an addition leaves the basic part, and any other entry goes there in both
    modes. -/
theorem basic_addEntry (m : Metadata) (tag : Dom.Tag) :
    (addEntry true m tag).basic = addEntry false m.basic tag := by
  unfold addEntry
  cases tag.filled? "content" with
  | none => rfl
  | some content =>
      cases entryKind? tag with
      | none => rfl
      | some kind =>
          rcases kind with ⟨_ | _ | _, key⟩ <;> rfl

/-- The entries of a head in the basic mode are its entries in the extended mode without the
    additions. -/
theorem basic_headEntries (head : Dom.Element) :
    (headEntries true head).basic = headEntries false head := by
  unfold headEntries
  generalize htitled : (head.named "title").foldl _ Metadata.empty = titled
  have hstart : titled.basic = titled := by
    rw [← htitled]
    exact List.foldlRecOn (motive := fun m : Metadata => m.basic = m) (head.named "title") _ rfl
      fun m hm e _ => by rw [← hm]; rfl
  -- Forgetting what is extended commutes with each tag, and so with all of them.
  have hfold : ∀ (tags : List Dom.Element) (m : Metadata),
      (tags.foldl (fun m e => addEntry true m e.tag) m).basic =
        tags.foldl (fun m e => addEntry false m e.tag) m.basic := by
    intro tags
    induction tags with
    | nil => exact fun _ => rfl
    | cons e rest ih =>
        intro m
        rw [List.foldl_cons, List.foldl_cons, ih, basic_addEntry]
  rw [hfold, hstart]

/-- What a head says in the basic mode follows what it says in the extended mode, if the
    structured data can be read. -/
theorem extractMetadata_follows (head : Dom.Element) :
    Follows LongNumber Metadata.basic (extractMetadata true head) (extractMetadata false head) := by
  -- Only a number with too many digits ends the reading of the blocks.
  have hdata : (structuredData head).Ends (fun items => ∀ item ∈ items, True) LongNumber :=
    structuredData_ends (fun _ _ _ _ => True.intro) (fun _ _ _ _ => True.intro)
      fun _ _ _ _ _ => rfl
  unfold Follows
  change (∃ e, _ ∧ (structuredData head >>= _).result = _) ∨
    Except.ok (headEntries false head) = (structuredData head >>= _).result.map _
  rw [Traced.result_bind]
  rcases hdata.cases with ⟨items, hok, _⟩ | ⟨e, herror, hlong⟩
  · rw [hok]
    exact Or.inr (congrArg Except.ok (basic_headEntries head).symm)
  · rw [herror]
    exact Or.inl ⟨e, hlong, rfl⟩

/-- A table with other metadata in its cells has the same columns. -/
theorem tableOf_onMetadata (g : Metadata → Metadata) (o : Options) (e : Dom.Element)
    (rows : List (List Cell)) :
    (tableOf o e rows).rewrite (onMetadata g) =
      tableOf o e (rows.map (List.map (Cell.rewrite (onMetadata g)))) := by
  have hrow : (rewriteRow (onMetadata g) : List Cell → List Cell) =
      List.map (Cell.rewrite (onMetadata g)) := funext (Markdown.rewriteRow_eq _)
  have htable : ∀ rows colIds, (Node.table rows colIds).rewrite (onMetadata g) =
      .table (rows.map (List.map (Cell.rewrite (onMetadata g)))) colIds := by
    intro rows colIds
    rw [← hrow, ← Markdown.rewriteRows_eq]
    rfl
  -- The separator has no metadata in it, and its width is that of the header either way.
  have hseparator : ∀ width, (separatorRow width).map (Cell.rewrite (onMetadata g)) =
      separatorRow width := by
    intro width
    rw [separatorRow, List.map_replicate]
    rfl
  have hwidth : ∀ row : List Cell, Markdown.rowWidth (row.map (Cell.rewrite (onMetadata g))) =
      Markdown.rowWidth row := by
    intro row
    rw [← hrow, Markdown.rowWidth_rewriteRow]
  unfold tableOf
  cases rows with
  | nil => exact htable _ _
  | cons first others =>
      cases e.named "tr" with
      | nil =>
          simp only [List.map_cons, List.head?_cons, Option.map_some, hwidth]
          exact htable _ _
      | cons header _ =>
          simp only [List.map_cons, List.head?_cons, Option.map_some, hwidth]
          by_cases hheader : (header.first? "th").isSome = true
          · rw [if_pos hheader, if_pos hheader, htable, List.map_cons, List.map_cons, hseparator]
          · rw [if_neg hheader, if_neg hheader, htable, List.map_cons]

theorem lowerImage_follows (o : Options) (e : Dom.Element) :
    Follows LongNumber (Node.rewrite (onMetadata Metadata.basic))
      (lowerImage (o.withMetadata .extended) e) (lowerImage (o.withMetadata .basic) e) := by
  unfold lowerImage
  by_cases hdata : isInlineImage (e.tag.shown "src") = true
  · simp only [if_pos hdata]
    exact Follows.pure (Node.image _ _)
  · simp only [if_neg hdata]
    exact (Follows.of_eq rfl).bind fun src => Follows.pure (Node.image src _)

section

variable (o : Options) {lower lower' : Descent}
variable (h : ∀ indent e, Follows LongNumber basicNodes (lower indent e) (lower' indent e))

include h

theorem lowerLink_follows (indent : Int) (e : Dom.Element) :
    Follows LongNumber (Node.rewrite (onMetadata Metadata.basic))
      (lowerLink (o.withMetadata .extended) lower indent e)
      (lowerLink (o.withMetadata .basic) lower' indent e) := by
  unfold lowerLink
  by_cases hdata : isInlineImage ((e.tag.text? "href").getD "#") = true
  · simp only [if_pos hdata]
    exact (h indent e).bind fun nodes => Follows.pure (Node.link _ nodes)
  · simp only [if_neg hdata]
    refine (Follows.of_eq rfl).bind fun href => ?_
    by_cases honly : e.holdsOnlyText = true
    · simp only [if_pos honly]
      exact Follows.pure (Node.link href _)
    · simp only [if_neg honly]
      exact (h indent e).bind fun nodes => Follows.pure (Node.link href nodes)

/-- A cell follows its contents. -/
theorem lowerCell_follows (indent : Int) (position : Nat) (cell : Dom.Element) :
    Follows LongNumber (Cell.rewrite (onMetadata Metadata.basic))
      (lowerCell (o.withMetadata .extended) lower indent position cell)
      (lowerCell (o.withMetadata .basic) lower' indent position cell) := by
  unfold lowerCell
  by_cases honly : cell.holdsOnlyText = true
  · simp only [if_pos honly]
    exact (Follows.of_eq rfl).bind fun colId => Follows.pure (Cell.plain _ _)
  · simp only [if_neg honly]
    refine (h (indent + 1) cell).bind fun content => ?_
    exact (Follows.of_eq rfl).bind fun colId => Follows.pure (Cell.rich content _)

theorem lowerCells_follows (indent : Int) (position : Nat) (cells : List Dom.Element) :
    Follows LongNumber (List.map (Cell.rewrite (onMetadata Metadata.basic)))
      (lowerCells (o.withMetadata .extended) lower indent position cells)
      (lowerCells (o.withMetadata .basic) lower' indent position cells) := by
  induction cells generalizing position with
  | nil => exact Follows.pure []
  | cons cell rest ih =>
      unfold lowerCells
      refine (lowerCell_follows o h indent position cell).bind fun made => ?_
      exact (ih _).bind fun others => Follows.pure (made :: others)

/-- A table follows its cells. -/
theorem lowerTable_follows (indent : Int) (e : Dom.Element) :
    Follows LongNumber (Node.rewrite (onMetadata Metadata.basic))
      (lowerTable (o.withMetadata .extended) lower indent e)
      (lowerTable (o.withMetadata .basic) lower' indent e) := by
  rw [lowerTable_eq, lowerTable_eq]
  refine (Follows.each (e.named "tr") fun row _ =>
    lowerCells_follows o h indent 0 (cellElements row)).bind fun rows => Or.inr ?_
  exact congrArg Except.ok (tableOf_onMetadata _ o e rows).symm

/-- In both modes an element has the same category, since both want metadata. -/
theorem lowerElement_follows (ho : o.unhandledElement = none) (indent : Int) (e : Dom.Element) :
    Follows LongNumber basicNodes
      (lowerElement (o.withMetadata .extended) lower indent e)
      (lowerElement (o.withMetadata .basic) lower' indent e) := by
  -- Most rules end with one node, whose metadata is cut where the nodes below have theirs cut.
  have hone : ∀ node : Node, Follows LongNumber basicNodes (pure [node] : Conversion (List Node))
      (pure [node.rewrite (onMetadata Metadata.basic)]) := fun node => Follows.pure [node]
  have hextended : (o.withMetadata .extended).metadata.wanted = true := rfl
  have hbasic : (o.withMetadata .basic).metadata.wanted = true := rfl
  unfold lowerElement
  rw [hextended, hbasic]
  refine (Follows.of_eq rfl).bind fun _ => ?_
  cases Dom.categoryOf true e.name with
  | heading level =>
      by_cases hblank : Text.isAllBlank e.text = true
      · simp only [if_pos hblank]
        exact Follows.pure []
      · simp only [if_neg hblank]
        exact (h indent e).bind fun nodes => hone (.heading level nodes)
  | paragraph =>
      refine (h indent e).bind fun nodes => Or.inr (congrArg Except.ok ?_)
      exact (Markdown.rewrite_append _ nodes [.text "\n\n"]).symm
  | link => exact (lowerLink_follows o h indent e).bind hone
  | image => exact (lowerImage_follows o e).bind hone
  | video => exact hone (lowerVideo e)
  | list =>
      refine (Follows.each e.children fun c _ => h (indent + 1) c).bind fun items => ?_
      refine Or.inr (congrArg Except.ok ?_)
      change _ = [Node.list _ (rewriteItems _ items)]
      rw [Markdown.rewriteItems_eq]
  | lineBreak => exact hone (.text "\n")
  | table => exact (lowerTable_follows o h indent e).bind hone
  | head => exact (extractMetadata_follows e).bind fun m => hone (.metadata m)
  | dropped => exact Follows.pure []
  | emphasis style =>
      by_cases hblank : Text.isAllBlank e.text = true
      · simp only [if_pos hblank]
        exact Follows.pure []
      · simp only [if_neg hblank]
        exact (h indent e).bind fun nodes => hone (.emphasis style nodes)
  | code =>
      refine Or.inr (congrArg Except.ok ?_)
      rcases lowerCode_cases e with hnil | ⟨_, language, inline, hcode⟩
      · rw [hnil]
        rfl
      · rw [hcode]
        rfl
  | quote => exact (h indent e).bind fun nodes => hone (.quote nodes)
  | semantic element => exact (h indent e).bind fun nodes => hone (.semantic element nodes)
  | unhandled =>
      have hask : ∀ mode, askHook ((o.withMetadata mode).shownTo
          (o.withMetadata mode).unhandledElement) (.element e.tag e.nodes) indent = pure none := by
        intro mode
        change askHook ((o.withMetadata mode).shownTo o.unhandledElement) _ _ = _
        rw [ho]
        rfl
      rw [hask, hask]
      exact h (indent + 1) e

/-- A child follows the rule of its element. -/
theorem lowerChild_follows (ho : o.WithoutElementHooks) (indent : Int) (parent : Dom.Element)
    (child : Dom.Node) :
    Follows LongNumber basicNodes
      (lowerChild (o.withMetadata .extended) lower indent parent child)
      (lowerChild (o.withMetadata .basic) lower' indent parent child) := by
  have hask : ∀ mode, askHook ((o.withMetadata mode).shownTo
      (o.withMetadata mode).overrideElement) child indent = pure none := by
    intro mode
    change askHook ((o.withMetadata mode).shownTo o.overrideElement) _ _ = _
    rw [ho.1]
    rfl
  unfold lowerChild
  rw [hask, hask]
  cases child with
  | text content =>
      change Follows LongNumber basicNodes (lowerText _ content) (lowerText _ content)
      unfold lowerText
      by_cases hempty : (Text.trim content.toList).isEmpty = true
      · simp only [if_pos hempty]
        exact Follows.pure []
      · simp only [if_neg hempty]
        exact (Follows.of_eq rfl).bind fun _ => Follows.pure [Node.text _]
  | special kind content => exact Follows.pure []
  | element tag nodes =>
      exact lowerElement_follows o h ho.2 indent ⟨parent.name, parent.innerRole, tag, nodes⟩

omit h

/-- The recursion in both modes, by induction on the levels that are left. -/
theorem lowerLevels_follows (ho : o.WithoutElementHooks) (levels : Nat) (indent : Int)
    (e : Dom.Element) :
    Follows LongNumber basicNodes
      (lowerLevels (o.withMetadata .extended) levels indent e)
      (lowerLevels (o.withMetadata .basic) levels indent e) := by
  induction levels generalizing indent e with
  | zero =>
      change Follows LongNumber basicNodes (flatten _ e) (flatten _ e)
      unfold flatten
      refine (Follows.of_eq rfl).bind fun _ => Or.inr ?_
      by_cases hempty : e.spacedText.isEmpty = true
      · simp only [if_pos hempty]
        rfl
      · simp only [if_neg hempty]
        rfl
  | succ levels ih =>
      exact Follows.collect rfl (Markdown.rewrite_append _) e.nodes fun child _ =>
        lowerChild_follows o ih ho indent e child

end

/-- The basic tree of an element is the extended tree without its additions, if the structured
    data can be read. -/
theorem lower_follows (o : Options) (ho : o.WithoutElementHooks) (indent : Int) (e : Dom.Element) :
    Follows LongNumber basicNodes
      (lower (o.withMetadata .extended) indent e) (lower (o.withMetadata .basic) indent e) := by
  have hlimit : ∀ mode, (o.withMetadata mode).maxDepth = o.maxDepth := fun _ => rfl
  unfold lower
  rw [hlimit, hlimit]
  cases o.maxDepth with
  | unordered kind => exact Or.inr rfl
  | whole n => exact lowerLevels_follows o ho _ indent e
  | fraction x => exact lowerLevels_follows o ho _ indent e

end PageDistill
