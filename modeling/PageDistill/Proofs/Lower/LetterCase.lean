import PageDistill.Convert
import PageDistill.Proofs.Dom.Renaming
import PageDistill.Proofs.Lower.Agreement
import PageDistill.Proofs.Metadata.Extraction

/-!
# Names in Another Letter Case

What the letter case of names changes in the tree.

An element is sorted into its category by its name in lower case, so the case of a name should not
matter. For most names it does not. But some rules look at a name once more, and then as it is
written: the rule for lists asks whether the list is an `ol`, that for code whether its parent is a
`pre`, tables and heads look for the elements in them by name, and the role of a text comes from
names as well. These names are listed in `writtenNames`. An `OL` is a list like any other, but it
is not an ordered one (`lower_ordered_capitals`).

Names that are written in another way are read alike if they fall into the same category and no
comparison with one of the listed names comes out differently (`ReadAlike`). A page whose names are
all read alike is lowered alike, whatever its names are changed to, and a change of letter case that
leaves the listed names alone is such a change.

How lower case is written is left open. The names that matter are all ASCII, so nothing is said of
a function for it but which names it takes to those, and that doing it twice does no more than
doing it once.

## Main definitions

* `writtenNames`, `knownNames`: The names compared as they are written, and all names.
* `LowerCases`: A way to write names in lower case.
* `ReadAlike`, `Dom.Element.RenamedAlike`: Other names that are read alike.
* `sparing`: A change of names that leaves some names alone.
* `listPage`: A page with one list.

## Theorems

* `LowerCases.readAlike`: A name in lower case is read alike, if it is spared.
* `extractMetadata_rename`: The metadata of a renamed head.
* `lowerLevels_rename`: The recursion on a renamed page.
* `lower_letterCase`: The letter case of names does not change a tree, except for some names.
* `lower_ordered_capitals`: One name for which it does.
-/

namespace PageDistill

open Markdown (Node)
open Dom (SameRole renameAll)

/-- The names that are compared as they are written. The last two are looked for in heads only. -/
def writtenNames (wanted : Bool) : List String :=
  ["ol", "pre", "tr", "th", "td", "script", "style", "template", "rt", "rp"] ++
    if wanted then ["title", "meta"] else []

/-- The names that elements are sorted by. -/
def sortedNames : List String :=
  "head" :: (Dom.droppedNames ++ (Dom.semanticNames ++ Dom.namedCategories.map Prod.fst))

/-- All the names that lowering knows. -/
def knownNames : List String := sortedNames ++ writtenNames true

/-- A way to write names in lower case: once is enough, and it takes to a known name exactly what
    is that name up to letter case. -/
structure LowerCases (f : String → String) : Prop where
  settled : ∀ name, f (f name) = f name
  folds : ∀ name, ∀ known ∈ knownNames, f name = known ↔ Text.foldName name = known

/-- A name that is read like the one that replaces it. -/
structure ReadAlike (wanted : Bool) (f : String → String) (name : String) : Prop where
  category : Dom.categoryOf wanted (f name) = Dom.categoryOf wanted name
  written : ∀ known ∈ writtenNames wanted, (f name == known) = (name == known)

/-- All the names in an element are read alike. -/
def Dom.Element.RenamedAlike (wanted : Bool) (f : String → String) (e : Dom.Element) : Prop :=
  ∀ d ∈ e :: e.descendants, ReadAlike wanted f d.name

/-- A change of names that leaves alone what is some name up to letter case. -/
def sparing (names : List String) (f : String → String) (name : String) : String :=
  if Text.foldName name ∈ names then name else f name

section

variable {wanted : Bool} {f : String → String} {name : String}

/-- A name that elements are not sorted by has no category of its own. -/
theorem categoryOfFolded_of_not_mem (h : name ∉ sortedNames) :
    Dom.categoryOfFolded wanted name = .unhandled := by
  unfold sortedNames at h
  rw [List.mem_cons, not_or, List.mem_append, not_or, List.mem_append, not_or] at h
  unfold Dom.categoryOfFolded
  rw [if_neg h.1, if_neg (mt List.contains_iff_mem.mp h.2.1),
    if_neg (mt List.contains_iff_mem.mp h.2.2.1)]
  cases hfound : Entries.lookup? Dom.namedCategories name with
  | none => rfl
  | some category =>
      have hentry := Entries.mem_of_lookup? Dom.namedCategories name category hfound
      exact absurd (List.mem_map_of_mem hentry) h.2.2.2

/-- The case of letters makes no other category. -/
theorem LowerCases.category (hf : LowerCases f) (name : String) :
    Dom.categoryOf wanted (f name) = Dom.categoryOf wanted name := by
  -- Both names fold to one and the same known name, or to none.
  have hknown : ∀ known ∈ sortedNames,
      Text.foldName (f name) = known ↔ Text.foldName name = known := by
    intro known hmem
    have hknown : known ∈ knownNames := List.mem_append_left _ hmem
    rw [← hf.folds (f name) known hknown, hf.settled, hf.folds name known hknown]
  unfold Dom.categoryOf
  by_cases hmem : Text.foldName name ∈ sortedNames
  · rw [(hknown _ hmem).mpr rfl]
  · have hmem' : Text.foldName (f name) ∉ sortedNames := fun h =>
      hmem ((hknown _ h).mp rfl ▸ h)
    rw [categoryOfFolded_of_not_mem hmem, categoryOfFolded_of_not_mem hmem']

/-- With metadata more names are looked for. -/
theorem writtenNames_subset : writtenNames wanted ⊆ writtenNames true := by
  cases wanted <;> decide

/-- A name in lower case is read alike, unless it is compared as it is written and was written in
    another way. -/
theorem LowerCases.readAlike (hf : LowerCases f)
    (h : Text.foldName name ∈ writtenNames wanted → Text.foldName name = name) :
    ReadAlike wanted f name where
  category := hf.category name
  written := fun known hmem => by
    have hknown : known ∈ knownNames := List.mem_append_right _ (writtenNames_subset hmem)
    have hfold : Text.foldName known = known := by
      have hall : ∀ known ∈ writtenNames true, Text.foldName known = known := by decide
      exact hall known (writtenNames_subset hmem)
    rw [Bool.eq_iff_iff, beq_iff_eq, beq_iff_eq, hf.folds name known hknown]
    constructor
    · rintro rfl
      exact (h hmem).symm
    · rintro rfl
      exact hfold

theorem LowerCases.readAlike_sparing (hf : LowerCases f) :
    ReadAlike wanted (sparing (writtenNames wanted) f) name := by
  by_cases hspared : Text.foldName name ∈ writtenNames wanted
  · have hsame : sparing (writtenNames wanted) f name = name := if_pos hspared
    exact ⟨by rw [hsame], fun _ _ => by rw [hsame]⟩
  · have hsame : sparing (writtenNames wanted) f name = f name := if_neg hspared
    have halike : ReadAlike wanted f name := hf.readAlike fun h => absurd h hspared
    exact ⟨by rw [hsame, halike.category], fun known hmem => by
      rw [hsame, halike.written known hmem]⟩

end

section

variable {wanted : Bool} {f : String → String}

/-- A name keeps its role, since roles come from names as they are written. -/
theorem ReadAlike.sameRole {name : String} (h : ReadAlike wanted f name) : SameRole f name := by
  have hwritten : ∀ known ∈ writtenNames wanted, f name = known ↔ name = known := by
    intro known hmem
    have heq := h.written known hmem
    rw [Bool.eq_iff_iff, beq_iff_eq, beq_iff_eq] at heq
    exact heq
  have hmem : ∀ known ∈ ["script", "style", "template", "rt", "rp"],
      known ∈ writtenNames wanted := by
    cases wanted <;> decide
  unfold SameRole Dom.TextRole.ofName?
  simp only [hwritten _ (hmem "script" (by decide)), hwritten _ (hmem "style" (by decide)),
    hwritten _ (hmem "template" (by decide)), hwritten _ (hmem "rt" (by decide)),
    hwritten _ (hmem "rp" (by decide))]

variable {e : Dom.Element}

theorem Dom.Element.RenamedAlike.keepsRoles (h : e.RenamedAlike wanted f) : e.KeepsRoles f :=
  ⟨(h e List.mem_cons_self).sameRole, fun d hd => (h d (List.mem_cons_of_mem e hd)).sameRole⟩

theorem Dom.Element.RenamedAlike.descendant (h : e.RenamedAlike wanted f) {d : Dom.Element}
    (hd : d ∈ e.descendants) : d.RenamedAlike wanted f := by
  intro x hx
  rcases List.mem_cons.mp hx with rfl | hx
  · exact h x (List.mem_cons_of_mem e hd)
  · exact h x (List.mem_cons_of_mem e (Dom.Element.descendants_subset e d hd hx))

/-- Elements and the renamed elements, in pairs. -/
theorem forall₂_rename {related : Dom.Element → Dom.Element → Prop} {l : List Dom.Element}
    (h : ∀ d ∈ l, related d (d.rename f)) :
    List.Forall₂ related l (l.map (Dom.Element.rename f)) :=
  List.forall₂_map_right_iff.mpr (List.forall₂_same.mpr h)

/-- A search by a name as it is written. -/
theorem named_rename (h : e.RenamedAlike wanted f) {known : String}
    (hknown : known ∈ writtenNames wanted) :
    (e.rename f).named known = (e.named known).map (Dom.Element.rename f) :=
  Dom.Element.filter_descendants_rename h.keepsRoles (· == known) fun d hd =>
    (h d (List.mem_cons_of_mem e hd)).written known hknown

theorem first?_rename (h : e.RenamedAlike wanted f) {known : String}
    (hknown : known ∈ writtenNames wanted) :
    ((e.rename f).first? known).isSome = (e.first? known).isSome := by
  have hnamed := named_rename h hknown
  unfold Dom.Element.named at hnamed
  rw [Dom.Element.first?, Dom.Element.first?, ← List.head?_filter, ← List.head?_filter, hnamed,
    List.head?_map, Option.isSome_map]

/-- The cells of a row are those of the renamed row. -/
theorem cellElements_rename (h : e.RenamedAlike wanted f) :
    cellElements (e.rename f) = (cellElements e).map (Dom.Element.rename f) := by
  have hmem : ∀ known ∈ ["th", "td"], known ∈ writtenNames wanted := by cases wanted <;> decide
  refine Dom.Element.filter_descendants_rename h.keepsRoles
    (fun name => name == "th" || name == "td") fun d hd => ?_
  have halike := h d (List.mem_cons_of_mem e hd)
  simp only [halike.written "th" (hmem "th" (by decide)),
    halike.written "td" (hmem "td" (by decide))]

theorem soleString?_rename (node : Dom.Node) : soleString? (node.rename f) = soleString? node := by
  cases node with
  | text content => rfl
  | special kind content => rfl
  | element tag children =>
      cases children with
      | nil => rfl
      | cons child rest =>
          cases rest with
          | nil => exact soleString?_rename child
          | cons next others => rfl

/-- A block of structured data has the same source. -/
theorem blockSource_rename (h : e.KeepsRoles f) : blockSource (e.rename f) = blockSource e := by
  have hnodes : (e.rename f).nodes = renameAll f e.nodes := rfl
  unfold blockSource
  rw [Dom.Element.text_rename h, hnodes]
  cases e.nodes with
  | nil => rfl
  | cons child rest =>
      cases rest with
      | nil =>
          simp only [renameAll, soleString?_rename]
      | cons next others => rfl

/-- A renamed head has the same metadata. -/
theorem extractMetadata_rename (h : e.RenamedAlike true f) (extended : Bool) :
    (extractMetadata extended (e.rename f)).result = (extractMetadata extended e).result := by
  have htells : ∀ d : Dom.Element, TellsAlike d.tag (d.rename f).tag := fun d =>
    tellsAlike_of_sameAttrs fun _ => rfl
  have hkeeps : ∀ name, ∀ d ∈ e.named name, d.KeepsRoles f := fun name d hd =>
    h.keepsRoles.descendant (List.mem_filter.mp hd).1
  refine extractMetadata_congr ⟨?_, ?_, ?_⟩ extended
  · rw [named_rename h (by decide)]
    exact forall₂_rename fun d hd => Dom.Element.text_rename (hkeeps "title" d hd)
  · rw [named_rename h (by decide)]
    exact forall₂_rename fun d _ => htells d
  · rw [named_rename h (by decide)]
    exact forall₂_rename fun d hd => ⟨htells d, blockSource_rename (hkeeps "script" d hd)⟩

end

/-- Two descents with the same outcome for an element and the renamed element. -/
def AgreeRenamed (wanted : Bool) (f : String → String) (lower lower' : Descent) : Prop :=
  ∀ indent indent' e, Dom.Element.RenamedAlike wanted f e →
    (lower indent e).result = (lower' indent' (e.rename f)).result

section

variable {o : Options} {f : String → String} {lower lower' : Descent}
variable (hlower : AgreeRenamed o.metadata.wanted f lower lower')

include hlower

/-- A renamed element answers a rule as before. -/
theorem sameContents_of_renamed {e : Dom.Element} (h : e.RenamedAlike o.metadata.wanted f) :
    SameContents lower lower' e (e.rename f) where
  attrs := fun _ => rfl
  only := Dom.Element.holdsOnlyText_rename
  text := fun _ => Dom.Element.text_rename h.keepsRoles
  lowered := fun indent indent' => hlower indent indent' e h

/-- And so does a row of a table. -/
theorem sameRows_of_renamed {row : Dom.Element} (h : row.RenamedAlike o.metadata.wanted f) :
    SameRows lower lower' row (row.rename f) where
  cells := by
    rw [cellElements_rename h]
    exact forall₂_rename fun cell hcell =>
      sameContents_of_renamed hlower (h.descendant (List.mem_filter.mp hcell).1)
  header := first?_rename h (by cases o.metadata.wanted <;> decide)

/-- A renamed element gives the same answers to the rule for the element, if the descents agree. The
    name of its parent is asked for as well, though the parent is not in it. -/
theorem sameReplies_of_renamed {e : Dom.Element} (h : e.RenamedAlike o.metadata.wanted f)
    (hparent : (f e.parent == "pre") = (e.parent == "pre")) :
    SameReplies o o lower lower' (Dom.categoryOf o.metadata.wanted e.name) e (e.rename f) where
  falls := rfl
  falls' := (h e List.mem_cons_self).category
  ordered := fun _ => (h e List.mem_cons_self).written "ol" (by cases o.metadata.wanted <;> decide)
  parent := hparent
  lowered := fun indent indent' => hlower indent indent' e h
  attrs := fun _ _ => rfl
  text := fun _ => Dom.Element.text_rename h.keepsRoles
  link := fun _ => sameContents_of_renamed hlower h
  items := fun _ => by
    rw [Dom.Element.children_rename h.keepsRoles]
    exact forall₂_rename fun c hc indent indent' => hlower indent indent' c
      (h.descendant (Dom.Element.mem_descendants_of_mem_children hc))
  rows := fun _ => by
    rw [named_rename h (by cases o.metadata.wanted <;> decide)]
    exact forall₂_rename fun row hrow =>
      sameRows_of_renamed hlower (h.descendant (List.mem_filter.mp hrow).1)
  head := fun hhead => by
    -- There are heads only where metadata is wanted.
    have hwanted : o.metadata.wanted = true := by
      by_contra hunwanted
      rw [Bool.not_eq_true] at hunwanted
      rw [hunwanted] at hhead
      exact categoryOf_false_ne_head e.name hhead
    rw [hwanted] at h
    exact (extractMetadata_rename h _).symm

end

/-- The recursion has the same outcome for a renamed element. -/
theorem lowerLevels_rename {o : Options} (hhooks : o.WithoutElementHooks) {f : String → String}
    (levels : Nat) :
    AgreeRenamed o.metadata.wanted f (lowerLevels o levels) (lowerLevels o levels) := by
  have ho : o.LowerAlike o := ⟨hhooks, hhooks, rfl, rfl⟩
  induction levels with
  | zero =>
      -- With no levels left only the text counts, and renaming keeps it.
      intro indent indent' e h
      change (flatten o e).result = (flatten o (e.rename f)).result
      unfold flatten
      rw [Traced.result_bind, Traced.result_bind, Dom.Element.spacedText_rename h.keepsRoles]
      rfl
  | succ levels ih =>
      intro indent indent' e h
      unfold lowerLevels
      change _ = (Traced.collect _ (renameAll f e.nodes)).result
      rw [Dom.renameAll_eq_map]
      refine Traced.result_collect_congr
        (List.forall₂_map_right_iff.mpr (List.forall₂_same.mpr fun node hnode => ?_))
      cases node with
      | text content =>
          exact (lowerChild_text hhooks _ indent e content).trans
            (lowerChild_text hhooks _ indent' (e.rename f) content).symm
      | special kind content =>
          exact (lowerChild_special hhooks _ indent e kind content).trans
            (lowerChild_special hhooks _ indent' (e.rename f) kind content).symm
      | element tag children =>
          rw [Dom.Node.rename, lowerChild_element hhooks, lowerChild_element hhooks,
            Dom.Element.innerRole_rename h.keepsRoles]
          -- What is asked of an element below is answered alike, since renaming keeps the
          -- questions.
          have hbelow : (⟨e.name, e.innerRole, tag, children⟩ : Dom.Element) ∈ e.descendants :=
            Dom.Element.elements_subset_of_mem_nodes hnode List.mem_cons_self
          exact lowerElement_replies ho indent indent' (sameReplies_of_renamed ih
            (h.descendant hbelow)
            ((h e List.mem_cons_self).written "pre" (by cases o.metadata.wanted <;> decide)))

/-- A renamed element is lowered alike, if all the names in it are read alike. -/
theorem lower_rename {o : Options} (hhooks : o.WithoutElementHooks) {f : String → String}
    (indent : Int) {e : Dom.Element} (h : e.RenamedAlike o.metadata.wanted f) :
    (lower o indent (e.rename f)).result = (lower o indent e).result := by
  have hlevels : ∀ limit, levelsWithin limit (e.rename f) = levelsWithin limit e := by
    intro limit
    have hheight : Dom.heightOf (e.rename f).nodes = Dom.heightOf e.nodes :=
      Dom.heightOf_renameAll f e.nodes
    unfold levelsWithin
    rw [hheight]
  unfold lower
  simp only [hlevels]
  cases o.maxDepth with
  | unordered kind => rfl
  | whole n => exact (lowerLevels_rename hhooks _ indent indent e h).symm
  | fraction x => exact (lowerLevels_rename hhooks _ indent indent e h).symm

/-- Without hooks the letter case of names does not change a tree, except for the names that are
    compared as they are written. All other names may be written in lower case; and if those are in
    lower case from the start, then all names may. -/
theorem lower_letterCase (o : Options) (hhooks : o.WithoutElementHooks) (f : String → String)
    (hf : LowerCases f) (indent : Int) (e : Dom.Element) :
    (lower o indent (e.rename (sparing (writtenNames o.metadata.wanted) f))).result =
        (lower o indent e).result ∧
      ((∀ d ∈ e :: e.descendants, Text.foldName d.name ∈ writtenNames o.metadata.wanted →
          Text.foldName d.name = d.name) →
        (lower o indent (e.rename f)).result = (lower o indent e).result) :=
  ⟨lower_rename hhooks indent fun _ _ => hf.readAlike_sparing,
    fun hlower => lower_rename hhooks indent fun d hd => hf.readAlike (hlower d hd)⟩

theorem lowerCases_foldName : LowerCases Text.foldName :=
  ⟨Text.foldName_foldName, fun _ _ _ => Iff.rfl⟩

/-- Mixed letters in a heading, a list, emphasis and a table, with the rows and cells of the table
    in lower case. -/
theorem lower_letterCase_mixed :
    let plain (name : String) (nodes : List Dom.Node) : Dom.Node := .element ⟨name, []⟩ nodes
    let e : Dom.Element := ⟨"Body", .ordinary, ⟨"DIV", []⟩,
      [plain "H2" [.text "T"], plain "uL" [plain "LI" [plain "Strong" [.text "x"]]],
        plain "Table" [plain "tr" [plain "th" [.text "y"]]]]⟩
    let o := Options.default
    o.WithoutElementHooks ∧ LowerCases Text.foldName ∧
      (∀ d ∈ e :: e.descendants, Text.foldName d.name ∈ writtenNames o.metadata.wanted →
        Text.foldName d.name = d.name) ∧
      (lower o 0 (e.rename Text.foldName)).result = (lower o 0 e).result ∧
      (convertElement o e).markdown.result = .ok "## T\n\n- **x**\n\n| y |\n| --- |" := by
  intro plain e o
  have hhooks : o.WithoutElementHooks := ⟨rfl, rfl⟩
  have hwritten : ∀ d ∈ e :: e.descendants, Text.foldName d.name ∈ writtenNames o.metadata.wanted →
      Text.foldName d.name = d.name := by decide
  exact ⟨hhooks, lowerCases_foldName, hwritten,
    (lower_letterCase o hhooks Text.foldName lowerCases_foldName 0 e).2 hwritten, by decide +kernel⟩

/-- A page with one list, whose element has the given name. -/
def listPage (name : String) : Dom.Element :=
  ⟨"body", .ordinary, ⟨"div", []⟩, [.element ⟨name, []⟩ [.element ⟨"li", []⟩ [.text "x"]]]⟩

/-- An ordered list is one by its name in lower case only: in capitals it is a list without
    numbers. -/
theorem lower_ordered_capitals :
    LowerCases Text.foldName ∧ (listPage "OL").rename Text.foldName = listPage "ol" ∧
      (lower Options.default 0 (listPage "OL")).result = .ok [.list false [[.text "x"]]] ∧
      (lower Options.default 0 (listPage "ol")).result = .ok [.list true [[.text "x"]]] :=
  ⟨lowerCases_foldName, rfl, rfl, rfl⟩

end PageDistill
