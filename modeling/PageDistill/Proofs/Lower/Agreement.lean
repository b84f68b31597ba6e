import PageDistill.Proofs.Lower.Congruence

/-!
# When Lowering Agrees

Two runs of lowering with the same outcome.

Lowering asks of an element its category, some attributes, what it says, the elements of some
names below it, and its children. Two runs over similar pages agree if the hidden parts lie
out of the reach of all these questions (`OutOfSight`). That a hidden part is of an element
that is left out is not enough. The rule for lists lowers the children of each item at once,
without asking what the item is; the rule for tables looks for rows and cells at any depth;
headings, emphasis and code look at all that they say; and an element that stands too deep
becomes all that it says. So the contents of an element that is left out still are seen
directly in a list, when they have rows or cells in a table, and when they say what an
element around them says that looks at it.

The two runs may differ in more than the pages. The options may differ in what lowering does
not use, and in whether metadata is wanted, as long as there is no head below the element.
The levels that are left may differ as long as they are enough. `Twins` bundles all this for
two elements. Against two descents that agree one level further down (`AgreeBelow`) twins give the
same answers to the rules of lowering (`sameAnswers_of_twins`), and the induction on the levels
assembles them.

## Main definitions

* `Unobserved`: Tags that lowering does not tell apart.
* `OutOfSight`: Contents that no rule sees anything of.
* `Twins`: Two elements with the options and levels of two runs that agree on them.
* `AgreeBelow`: Two descents that agree.

## Theorems

* `sameAnswers_of_twins`: Twins give the same answers to the rule for them.
* `agreeBelow_lowerLevels`: The two recursions agree.
* `lowerChild_agree`: So they do on children of elements that are no twins themselves.
-/

namespace PageDistill

open Markdown (Node Cell CellMarks)
open Dom (AllSimilar Mates SameAttrs)

/-- Tags that lowering does not tell apart: their attributes have the same values, except that
    no rule looks at the attributes of a `meta` element. -/
def Unobserved (tag tag' : Dom.Tag) : Prop := tag.name ≠ "meta" → SameAttrs tag tag'

/-- The elements around that look at what they say. The first one is the element at the top,
    whose own rule is not used; but where elements may stand too deep, any of them may become
    what it says. -/
def sayers (deep : Bool) (around : List String) : List String :=
  if deep then around else around.tail.filter readsText

/-- The names of the elements that make up a table. -/
def cellNames : List String := ["tr", "th", "td"]

/-- Contents that no rule sees anything of, in an element that is left out. -/
structure OutOfSight (deep : Bool) (around : List String) (role : Dom.TextRole) (tag : Dom.Tag)
    (nodes : List Dom.Node) : Prop where
  dropped : Dom.categoryOf false tag.name = .dropped
  noItem : ∀ name ∈ around.tail.getLast?, Dom.categoryOf false name ≠ .list
  noCells : (∃ name ∈ around.tail, Dom.categoryOf false name = .table) →
    ∀ d ∈ Dom.elementsOf tag.name (role.within tag.name) nodes, d.name ∉ cellNames
  unsaid : ∀ s ∈ Dom.stringsOf (role.within tag.name) nodes, ∀ name ∈ sayers deep around,
    Dom.tells name s.kind = false

instance (deep : Bool) (around : List String) (role : Dom.TextRole) (tag : Dom.Tag)
    (nodes : List Dom.Node) : Decidable (OutOfSight deep around role tag nodes) :=
  decidable_of_iff
    (Dom.categoryOf false tag.name = .dropped ∧
      (∀ name ∈ around.tail.getLast?, Dom.categoryOf false name ≠ .list) ∧
      ((∃ name ∈ around.tail, Dom.categoryOf false name = .table) →
        ∀ d ∈ Dom.elementsOf tag.name (role.within tag.name) nodes, d.name ∉ cellNames) ∧
      ∀ s ∈ Dom.stringsOf (role.within tag.name) nodes, ∀ name ∈ sayers deep around,
        Dom.tells name s.kind = false)
    ⟨fun ⟨dropped, noItem, noCells, unsaid⟩ => ⟨dropped, noItem, noCells, unsaid⟩,
      fun h => ⟨h.dropped, h.noItem, h.noCells, h.unsaid⟩⟩

/-- Elements of two pages on which two runs agree, when elements of some names are around
    them, themselves included. Either the levels are enough for both, or elements may stand too
    deep and the levels are the same. -/
structure Twins (o o' : Options) (deep : Bool) (levels levels' : Nat) (front : List String)
    (e e' : Dom.Element) : Prop where
  mates : Mates Unobserved (OutOfSight deep) (front ++ [e.name]) e e'
  levels : Dom.heightOf e.nodes < levels ∧ Dom.heightOf e'.nodes < levels' ∨
    deep = true ∧ levels' = levels
  headless : o.metadata.wanted = true ∨ o'.metadata.wanted = true →
    ∀ d ∈ e.descendants, Text.foldName d.name ≠ "head"

/-- Two descents that agree on twins. -/
def AgreeBelow (o o' : Options) (deep : Bool) (levels levels' : Nat) (lower lower' : Descent) :
    Prop :=
  ∀ indent indent' front e e', Twins o o' deep levels levels' front e e' →
    (lower indent e).result = (lower' indent' e').result

theorem categoryOf_false_ne_head (name : String) : Dom.categoryOf false name ≠ .head := by
  have hnamed : ∀ entry ∈ Dom.namedCategories, entry.2 ≠ .head := by decide
  unfold Dom.categoryOf
  rcases Dom.categoryOfFolded_cases false (Text.foldName name) with ⟨hwanted, _⟩ | ⟨_, heq⟩ |
    ⟨_, heq⟩ | hentry | heq
  · exact absurd hwanted Bool.false_ne_true
  · rw [heq]
    exact Dom.Category.noConfusion
  · rw [heq]
    exact Dom.Category.noConfusion
  · exact hnamed _ hentry
  · rw [heq]
    exact Dom.Category.noConfusion

/-- A `meta` element has no rule of its own, so all others may use their attributes. -/
theorem Unobserved.sameAttrs {tag tag' : Dom.Tag} (h : Unobserved tag tag')
    (hrule : Dom.categoryOf false tag.name ≠ .unhandled) : SameAttrs tag tag' := by
  refine h fun hname => hrule ?_
  rw [hname]
  decide

section

variable {o o' : Options} {deep : Bool} {levels levels' : Nat} {front : List String}
variable {e e' : Dom.Element}

/-- Pairs of elements anywhere below twins are twins. -/
theorem Twins.below (h : Twins o o' deep levels levels' front e e') {around : List String}
    {d d' : Dom.Element} (hd : d ∈ e.descendants) (hd' : d' ∈ e'.descendants)
    (hmates : Mates Unobserved (OutOfSight deep) (around ++ [d.name]) d d') :
    Twins o o' deep levels levels' around d d' := by
  have hheight := Dom.Element.heightOf_lt e d hd
  have hheight' := Dom.Element.heightOf_lt e' d' hd'
  refine ⟨hmates, ?_, fun hwanted x hx =>
    h.headless hwanted x (Dom.Element.descendants_subset e d hd hx)⟩
  rcases h.levels with ⟨hlevels, hlevels'⟩ | hdeep
  · exact Or.inl ⟨by omega, by omega⟩
  · exact Or.inr hdeep

/-- Hidden contents say nothing that an element around them looks at. -/
theorem strings_eq_of_sayer (hmates : Mates Unobserved (OutOfSight deep) (front ++ [e.name]) e e')
    (hsaid : ∀ between, e.name ∈ sayers deep (front ++ [e.name] ++ between)) :
    e'.strings = e.strings :=
  hmates.strings_eq fun between _ _ _ hhidden s hs =>
    hhidden.unsaid s hs e.name (hsaid between)

/-- An element whose text is read has the same text in both pages. -/
theorem text_eq_of_sayer (hmates : Mates Unobserved (OutOfSight deep) (front ++ [e.name]) e e')
    (hfront : front ≠ []) (hreads : readsText e.name = true) : e'.text = e.text := by
  rw [Dom.Element.text, Dom.Element.text]
  refine congrArg List.flatten (strings_eq_of_sayer hmates fun between => ?_)
  unfold sayers
  rw [List.append_assoc, List.tail_append_of_ne_nil hfront]
  by_cases hdeep : deep = true
  · rw [if_pos hdeep]
    exact List.mem_append_right _ (List.mem_append_left _ List.mem_cons_self)
  · rw [if_neg hdeep]
    refine List.mem_filter.mpr ⟨?_, hreads⟩
    exact List.mem_append_right _ (List.mem_append_left _ List.mem_cons_self)

/-- Both are flattened to the same text. -/
theorem flatten_agree (h : Mates Unobserved (OutOfSight true) (front ++ [e.name]) e e') :
    (flatten o e).result = (flatten o' e').result := by
  have hstrings : e'.strings = e.strings := strings_eq_of_sayer h fun between =>
    List.mem_append_left _ (List.mem_append_right _ List.mem_cons_self)
  have htext : e'.spacedText = e.spacedText := by
    rw [Dom.Element.spacedText, Dom.Element.spacedText, hstrings]
  unfold flatten
  rw [Traced.result_bind, Traced.result_bind, htext]
  rfl

/-- What holds only text has nothing hidden in it. -/
theorem holdsOnlyText_eq {around : List String}
    (h : Mates Unobserved (OutOfSight deep) around e e') :
    e'.holdsOnlyText = e.holdsOnlyText := h.nodes.all_isText_eq

theorem text_eq_of_holdsOnlyText {around : List String}
    (h : Mates Unobserved (OutOfSight deep) around e e') (honly : e.holdsOnlyText = true) :
    e'.text = e.text := by
  have hnodes := h.nodes.eq_of_isText honly
  have hholds : e'.holds = e.holds := by
    funext kind
    rw [Dom.Element.holds, Dom.Element.holds, h.name]
  rw [Dom.Element.text, Dom.Element.text, Dom.Element.strings, Dom.Element.strings, hnodes,
    h.role, hholds]

variable (ho : o.LowerAlike o') {lower lower' : Descent}
  (hlower : AgreeBelow o o' deep levels levels' lower lower') (indent indent' : Int)

-- Twins that are links or cells have the same contents.
include hlower in
/-- Twins answer all that a rule asks of its element alike. -/
theorem sameContents_of_twins (h : Twins o o' deep levels levels' front e e')
    (hattrs : SameAttrs e.tag e'.tag) : SameContents lower lower' e e' where
  attrs := hattrs
  only := holdsOnlyText_eq h.mates
  text := text_eq_of_holdsOnlyText h.mates
  lowered := fun indent indent' => hlower indent indent' front e e' h

/-- The elements of some names that make up tables, anywhere below a table, in pairs. -/
theorem tableParts_agree (wanted : String → Bool) (hwanted : ∀ name, wanted name = true →
    name ∈ cellNames) {table : String} (htable : Dom.categoryOf false table = .table)
    {around : List String} (haround : table ∈ around.tail)
    (h : Mates Unobserved (OutOfSight deep) around e e') :
    List.Forall₂ (fun d d' => ∃ between,
        Mates Unobserved (OutOfSight deep) (around ++ between ++ [d.name]) d d')
      (e.descendants.filter fun d => wanted d.name)
      (e'.descendants.filter fun d => wanted d.name) := by
  have hopen : ∀ name ∈ cellNames, Dom.categoryOf false name ≠ .dropped := by decide
  refine h.filter_descendants wanted fun between role tag nodes hhidden => ⟨?_, fun d hd => ?_⟩
  · by_contra hname
    rw [Bool.not_eq_false] at hname
    exact hopen _ (hwanted _ hname) hhidden.dropped
  · by_contra hname
    rw [Bool.not_eq_false] at hname
    refine hhidden.noCells ⟨table, ?_, htable⟩ d hd (hwanted _ hname)
    rw [List.tail_append_of_ne_nil (List.ne_nil_of_mem (List.mem_of_mem_tail haround))]
    exact List.mem_append_left _ haround

theorem first?_isSome_agree {table : String} (htable : Dom.categoryOf false table = .table)
    {around : List String} (haround : table ∈ around.tail)
    (h : Mates Unobserved (OutOfSight deep) around e e') :
    (e'.first? "th").isSome = (e.first? "th").isSome := by
  have hpairs := tableParts_agree (fun name => name == "th")
    (fun name hname => by rw [beq_iff_eq.mp hname]; decide) htable haround h
  rw [Dom.Element.first?, Dom.Element.first?, ← List.head?_filter, ← List.head?_filter]
  generalize e.descendants.filter (fun d => d.name == "th") = headers at hpairs
  generalize e'.descendants.filter (fun d => d.name == "th") = headers' at hpairs
  cases hpairs <;> rfl

include hlower

/-- A pair of rows below twins has the same cells. -/
theorem sameRows_of_twins (h : Twins o o' deep levels levels' front e e') {table : String}
    (htable : Dom.categoryOf false table = .table) {around : List String}
    (haround : table ∈ around.tail) {row row' : Dom.Element} (hrow : row ∈ e.descendants)
    (hrow' : row' ∈ e'.descendants)
    (hmates : Mates Unobserved (OutOfSight deep) around row row') :
    SameRows lower lower' row row' where
  cells := by
    have hcells := Dom.forall₂_with_mem (tableParts_agree
      (fun name => name == "th" || name == "td") (fun name hname => by
        rw [Bool.or_eq_true, beq_iff_eq, beq_iff_eq] at hname
        rcases hname with rfl | rfl <;> decide) htable haround hmates)
    refine hcells.imp fun cell cell' hcell => ?_
    rcases hcell with ⟨hmem, hmem', between, hcell⟩
    rw [List.mem_filter] at hmem hmem'
    refine sameContents_of_twins hlower (h.below
      (Dom.Element.descendants_subset e row hrow hmem.1)
      (Dom.Element.descendants_subset e' row' hrow' hmem'.1) hcell) (hcell.tag fun hmeta => ?_)
    rw [Dom.Element.name, hmeta] at hmem
    exact absurd hmem.2 (by decide)
  header := first?_isSome_agree htable haround hmates

/-- So have all rows of a table. -/
theorem rows_of_twins (h : Twins o o' deep levels levels' front e e') (hfront : front ≠ [])
    (htable : Dom.categoryOf false e.name = .table) :
    List.Forall₂ (SameRows lower lower') (e.named "tr") (e'.named "tr") := by
  -- The name of the table is around everything below it.
  have haround : ∀ between, e.name ∈ (front ++ [e.name] ++ between).tail := by
    intro between
    rw [List.append_assoc, List.tail_append_of_ne_nil hfront]
    exact List.mem_append_right _ List.mem_cons_self
  have hself : e.name ∈ (front ++ [e.name]).tail := by
    have := haround []
    rwa [List.append_nil] at this
  have hrows := Dom.forall₂_with_mem (tableParts_agree (fun name => name == "tr")
    (fun name hname => by rw [beq_iff_eq.mp hname]; decide) htable hself h.mates)
  refine hrows.imp fun row row' hrow => ?_
  rcases hrow with ⟨hmem, hmem', between, hmates⟩
  rw [List.append_assoc (front ++ [e.name])] at hmates
  exact sameRows_of_twins hlower h htable (haround _) (List.mem_filter.mp hmem).1
    (List.mem_filter.mp hmem').1 hmates

/-- What the rules ask of twins. The two elements stand in different places, so whether the parent
    is a `pre` element, which only code asks for, is said of both. -/
theorem sameAnswers_of_twins (h : Twins o o' deep levels levels' front e e') (hfront : front ≠ [])
    (hparent : (e'.parent == "pre") = (e.parent == "pre"))
    (hhead : o.metadata.wanted = true ∨ o'.metadata.wanted = true →
      Text.foldName e.name ≠ "head") : SameAnswers o o' lower lower' e e' := by
  have hcategory := categoryOf_of_headless o.metadata.wanted e.name fun hwanted =>
    hhead (Or.inl hwanted)
  have hcategory' := categoryOf_of_headless o'.metadata.wanted e.name fun hwanted =>
    hhead (Or.inr hwanted)
  exact
    { name := h.mates.name
      category := by rw [hcategory, hcategory']
      parent := hparent
      lowered := fun indent indent' => hlower indent indent' front e e' h
      attrs := fun hrule => h.mates.tag.sameAttrs (by rwa [hcategory] at hrule)
      text := text_eq_of_sayer h.mates hfront
      link := fun hlink => sameContents_of_twins hlower h (h.mates.tag.sameAttrs (by
        rw [hcategory] at hlink
        exact hlink ▸ nofun))
      items := fun hlist => by
        rw [hcategory] at hlist
        -- No child of a list hides its contents.
        have hchildren := h.mates.children fun role tag nodes hhidden => by
          refine hhidden.noItem e.name ?_ hlist
          rw [List.tail_append_of_ne_nil hfront, List.getLast?_append]
          exact rfl
        refine (Dom.forall₂_with_mem hchildren).imp fun c c' hc indent indent' => ?_
        exact hlower _ _ _ c c' (h.below (Dom.Element.mem_descendants_of_mem_children hc.1)
          (Dom.Element.mem_descendants_of_mem_children hc.2.1) hc.2.2)
      rows := fun htable => rows_of_twins hlower h hfront (by rwa [hcategory] at htable)
      head := fun hmetadata => by
        rw [hcategory] at hmetadata
        exact absurd hmetadata (categoryOf_false_ne_head e.name) }

-- Elements that are left out leave nothing, whatever they hold.
omit hlower in
/-- An element that is dropped leaves nothing. -/
theorem lowerElement_of_dropped (hdropped : Dom.categoryOf false e.name = .dropped) :
    (lowerElement o lower indent e).result = .ok [] := by
  have hcategory : Dom.categoryOf o.metadata.wanted e.name = .dropped := by
    rw [← hdropped]
    refine categoryOf_of_headless _ _ fun _ hhead => ?_
    unfold Dom.categoryOf at hdropped
    rw [hhead] at hdropped
    exact absurd hdropped (by decide)
  unfold lowerElement
  rw [Traced.result_debugIf_bind, hcategory]
  rfl

include ho

/-- Two runs agree on similar children of any two elements in which they stand alike. -/
theorem lowerChild_agree {parent parent' : Dom.Element}
    (hparent : (parent'.name == "pre") = (parent.name == "pre"))
    (hrole : parent'.innerRole = parent.innerRole) (hfront : front ≠ []) {node node' : Dom.Node}
    (h : Dom.Similar Unobserved (OutOfSight deep) front parent.innerRole node node')
    (hlevels : node.height ≤ levels ∧ node'.height ≤ levels' ∨ deep = true ∧ levels' = levels)
    (hheadless : o.metadata.wanted = true ∨ o'.metadata.wanted = true →
      ∀ d ∈ node.elements parent.name parent.innerRole, Text.foldName d.name ≠ "head") :
    (lowerChild o lower indent parent node).result =
      (lowerChild o' lower' indent' parent' node').result := by
  unfold lowerChild
  simp only [ho.hooks.1, ho.hooks'.1, Options.shownTo_none, askHook, hrole]
  cases h with
  | text _ _ content =>
      exact lowerText_congr content
  | special kind content => rfl
  | @element _ _ tag tag' nodes nodes' hname hattrs hnodes =>
      have htwins : Twins o o' deep levels levels' front
          ⟨parent.name, parent.innerRole, tag, nodes⟩
          ⟨parent'.name, parent.innerRole, tag', nodes'⟩ :=
        { mates := ⟨hname, hattrs, congrArg parent.innerRole.within hname, hnodes⟩
          levels := hlevels
          headless := fun hwanted d hd => hheadless hwanted d (List.mem_cons_of_mem _ hd) }
      exact lowerElement_congr ho indent indent' (sameAnswers_of_twins hlower htwins hfront hparent
        fun hwanted => hheadless hwanted _ List.mem_cons_self)
  -- What is out of sight is dropped on both sides.
  | @hidden _ _ tag tag' nodes nodes' hname hattrs hnodes hnodes' =>
      exact (lowerElement_of_dropped (e := ⟨parent.name, parent.innerRole, tag, nodes⟩) indent
        hnodes.dropped).trans (lowerElement_of_dropped
          (e := ⟨parent'.name, parent.innerRole, tag', nodes'⟩) indent' hnodes'.dropped).symm

omit hlower

/-- The two recursions agree on twins, by induction on the levels: either both have a level
    left, or both have come to the end, which only twins that may stand too deep do. -/
theorem agreeBelow_lowerLevels (levels levels' : Nat) :
    AgreeBelow o o' deep levels levels' (lowerLevels o levels) (lowerLevels o' levels') := by
  induction levels generalizing levels' with
  | zero =>
      intro indent indent' front e e' h
      -- Nothing is low enough for no levels, unless both sides flatten.
      rcases h.levels with ⟨hlevels, _⟩ | ⟨rfl, rfl⟩
      · exact absurd hlevels (Nat.not_lt_zero _)
      · exact flatten_agree h.mates
  | succ levels ih =>
      intro indent indent' front e e' h
      cases levels' with
      | zero =>
          rcases h.levels with ⟨_, hlevels⟩ | ⟨_, hlevels⟩
          · exact absurd hlevels (Nat.not_lt_zero _)
          · exact absurd hlevels (Nat.zero_ne_add_one levels)
      | succ levels' =>
          unfold lowerLevels
          refine Traced.result_collect_congr ((Dom.forall₂_with_mem h.mates.nodes.forall₂).imp
            fun node node' hnode => ?_)
          rcases hnode with ⟨hmem, hmem', hnode⟩
          have hheight := Dom.height_le_heightOf e.nodes node hmem
          have hheight' := Dom.height_le_heightOf e'.nodes node' hmem'
          refine lowerChild_agree ho (ih levels') indent indent' (by rw [h.mates.name])
            h.mates.role (List.append_ne_nil_of_right_ne_nil _ (List.cons_ne_nil _ _)) hnode ?_
            fun hwanted d hd => h.headless hwanted d ?_
          -- A node is lower than the element that holds it.
          · rcases h.levels with ⟨hlevels, hlevels'⟩ | ⟨hdeep, hsame⟩
            · exact Or.inl ⟨by omega, by omega⟩
            · exact Or.inr ⟨hdeep, by omega⟩
          · exact Dom.Element.elements_subset_of_mem_nodes hmem hd

end

theorem Unobserved.refl (tag : Dom.Tag) : Unobserved tag tag := fun _ _ => rfl

/-- An element is its own twin, if the levels are enough and no head would be met. -/
theorem Twins.refl {o o' : Options} {levels levels' : Nat} (front : List String) (e : Dom.Element)
    (hlevels : Dom.heightOf e.nodes < levels) (hlevels' : Dom.heightOf e.nodes < levels')
    (hheadless : o.metadata.wanted = true ∨ o'.metadata.wanted = true →
      ∀ d ∈ e.descendants, Text.foldName d.name ≠ "head") :
    Twins o o' false levels levels' front e e where
  mates := ⟨rfl, Unobserved.refl e.tag, rfl, AllSimilar.refl Unobserved.refl _ _ e.nodes⟩
  levels := Or.inl ⟨hlevels, hlevels'⟩
  headless := hheadless

end PageDistill
