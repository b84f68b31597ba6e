import PageDistill.Convert
import PageDistill.Proofs.Dom.Wrapping
import PageDistill.Proofs.Lower.Agreement
import PageDistill.Proofs.Metadata.Extraction

/-!
# Wrappers Are Transparent

A `div` or a `span` around some nodes of a page changes nothing in the tree.

A wrapper has no rule of its own, so it is what its children are, one level further down. That
alone is not enough. The elements around a wrapper see another page: headings, emphasis and code
look at all they say, tables look for rows and cells at any depth, heads look for titles, entries
and scripts, and code looks at its parent. None of these questions tells a wrapper apart
(`sameAnswers_of_wrapped`). The rules that go through the children themselves would, which is why
links, cells, lists and `pre` elements are closed to wrappers.

The levels do not come out alike, as every wrapper takes one. So the induction is on the levels of
the wrapped page, for any number of levels of the other that is enough for it. In it a wrapper is
met twice over: the children of an element with a run among them are lowered in two parts, and the
run is lowered as if it were all that the element holds.

The same induction, without any wrapper, says that the levels do not matter where they are enough.

## Main definitions

* `soleStringOf?`: The string that is all some nodes hold.
* `WrappedContents`: Elements whose children are lowered alike, but for wrappers.

## Theorems

* `soleStringOf?_wrapped`: The string that is all an element holds is the same.
* `blockSource_eq`: What a script is read from, in terms of that string.
* `extractMetadata_wrapped`: So is the metadata of a head.
* `sameAnswers_of_wrapped`: Elements give the same answers with wrappers below them.
* `lowerLevels_wrapped`: The two recursions have the same outcome.
* `lower_transparent`: A wrapper does not change what an element is lowered to.
-/

namespace PageDistill

open Markdown (Node)
open Dom (Wrapped WrappedElement WrappedOnce wrapperNames closedNames)

/-- The string that is all some nodes hold: that of the only one. -/
def soleStringOf? : List Dom.Node → Option String
  | [node] => soleString? node
  | _ => none

theorem soleString?_element (tag : Dom.Tag) (nodes : List Dom.Node) :
    soleString? (.element tag nodes) = soleStringOf? nodes := by
  cases nodes with
  | nil => rfl
  | cons node rest => cases rest <;> rfl

/-- Two nodes or more do not hold one string. -/
theorem soleStringOf?_append {nodes more : List Dom.Node} (hnodes : nodes ≠ [])
    (hmore : more ≠ []) : soleStringOf? (nodes ++ more) = none := by
  match nodes, more with
  | [], _ => exact absurd rfl hnodes
  | _, [] => exact absurd rfl hmore
  | [_], _ :: _ => rfl
  | _ :: _ :: _, _ :: _ => rfl

/-- One node among two lists of nodes in step: it is alone in both or in none. -/
theorem soleStringOf?_cons {parent : String} {node node' : Dom.Node} {rest rest' : List Dom.Node}
    (hsole : soleString? node' = soleString? node) (hrest : Wrapped parent rest rest') :
    soleStringOf? (node' :: rest') = soleStringOf? (node :: rest) := by
  by_cases hnil : rest = []
  · have hnil' := hrest.nil_iff.mpr hnil
    subst hnil hnil'
    exact hsole
  · have hnil' : rest' ≠ [] := fun h => hnil (hrest.nil_iff.mp h)
    rw [← List.singleton_append, ← List.singleton_append (x := node),
      soleStringOf?_append (List.cons_ne_nil _ _) hnil',
      soleStringOf?_append (List.cons_ne_nil _ _) hnil]

/-- The string that is all some nodes hold does not depend on wrappers. -/
theorem soleStringOf?_wrapped {parent : String} {nodes nodes' : List Dom.Node}
    (h : Wrapped parent nodes nodes') : soleStringOf? nodes' = soleStringOf? nodes := by
  induction h with
  | nil => rfl
  | text content hrest _ => exact soleStringOf?_cons rfl hrest
  | special kind content hrest _ => exact soleStringOf?_cons rfl hrest
  | element tag _ hrest ihbelow _ =>
      refine soleStringOf?_cons ?_ hrest
      rw [soleString?_element, soleString?_element, ihbelow]
  -- A wrapper with nothing beside it stands for what is in it. Otherwise neither side is a sole
  -- string.
  | @wrap parent tag run run' nodes nodes' _ _ hne _ hrest ihrun _ =>
      by_cases hnil : nodes = []
      · have hnil' := hrest.nil_iff.mpr hnil
        subst hnil hnil'
        rw [List.append_nil, ← ihrun]
        exact soleString?_element tag run'
      · have hnil' : nodes' ≠ [] := fun h => hnil (hrest.nil_iff.mp h)
        rw [← List.singleton_append, soleStringOf?_append (List.cons_ne_nil _ _) hnil',
          soleStringOf?_append hne hnil]

/-- The source of a block, from the string that is all it holds. -/
theorem blockSource_eq (block : Dom.Element) :
    blockSource block =
      (((soleStringOf? block.nodes).filter (· != "")).map String.toList).getD block.text := by
  unfold blockSource
  cases block.nodes with
  | nil => rfl
  | cons node rest =>
      cases rest with
      | nil =>
          simp only [soleStringOf?]
          cases soleString? node with
          | none => rfl
          | some source =>
              by_cases hempty : source = ""
              · simp [hempty, Option.filter]
              · simp [hempty, Option.filter]
      | cons _ _ => rfl

theorem blockSource_wrapped {block block' : Dom.Element} (h : WrappedElement block block') :
    blockSource block' = blockSource block := by
  rw [blockSource_eq, blockSource_eq, soleStringOf?_wrapped h.nodes, h.text_eq]

/-- The metadata of a head does not depend on wrappers. -/
theorem extractMetadata_wrapped {head head' : Dom.Element} (h : WrappedElement head head')
    (extended : Bool) :
    (extractMetadata extended head').result = (extractMetadata extended head).result := by
  have hnamed : ∀ name ∉ wrapperNames,
      List.Forall₂ WrappedElement (head.named name) (head'.named name) := by
    intro name hname
    refine h.filter_descendants (fun other => other == name) fun other hother => ?_
    exact beq_eq_false_iff_ne.mpr fun heq => hname (heq ▸ hother)
  have halike : ∀ d d' : Dom.Element, WrappedElement d d' → TellsAlike d.tag d'.tag := by
    intro d d' hd
    rw [hd.tag]
    exact tellsAlike_of_sameAttrs fun _ => rfl
  refine extractMetadata_congr ⟨?_, ?_, ?_⟩ extended
  · exact (hnamed "title" (by decide)).imp fun d d' hd => hd.text_eq
  · exact (hnamed "meta" (by decide)).imp halike
  · exact (hnamed "script" (by decide)).imp fun d d' hd => ⟨halike d d' hd, blockSource_wrapped hd⟩

/-- Elements whose children are the same but for wrappers, and stand alike. The parameter is the
    name under which the children are compared; the elements may have other names, as long as
    none or all of the three is `pre`. -/
structure WrappedContents (parent : String) (e e' : Dom.Element) : Prop where
  nodes : Wrapped parent e.nodes e'.nodes
  role : e'.innerRole = e.innerRole
  pre : (e.name == "pre") = (parent == "pre")
  pre' : (e'.name == "pre") = (parent == "pre")

theorem WrappedContents.of_element {e e' : Dom.Element} (h : WrappedElement e e') :
    WrappedContents e.name e e' :=
  ⟨h.nodes, h.innerRole_eq, rfl, by rw [h.name_eq]⟩

/-- Two descents with the same outcome for elements that are nested within some heights. -/
def AgreeWrapped (levels levels' : Nat) (lower lower' : Descent) : Prop :=
  ∀ indent indent' parent e e', WrappedContents parent e e' → Dom.heightOf e.nodes < levels →
    Dom.heightOf e'.nodes < levels' → (lower indent e).result = (lower' indent' e').result

/-- Wrappers have no rule of their own. -/
theorem categoryOf_wrapper (wanted : Bool) {name : String} (h : name ∈ wrapperNames) :
    Dom.categoryOf wanted name = .unhandled := by
  have hall : ∀ wanted, ∀ name ∈ wrapperNames, Dom.categoryOf wanted name = .unhandled := by
    decide
  exact hall wanted name h

/-- Links and lists are closed to wrappers. -/
theorem closed_of_category {wanted : Bool} {name : String}
    (h : Dom.categoryOf wanted name = .link ∨ Dom.categoryOf wanted name = .list) :
    Text.foldName name ∈ closedNames := by
  have hall : ∀ entry ∈ Dom.namedCategories, entry.2 = .link ∨ entry.2 = .list →
      entry.1 ∈ closedNames := by decide
  unfold Dom.categoryOf at h
  rcases Dom.categoryOfFolded_cases wanted (Text.foldName name) with ⟨_, heq⟩ | ⟨_, heq⟩ |
    ⟨_, heq⟩ | hentry | heq
  · exact absurd h (by rw [heq]; decide)
  · exact absurd h (by rw [heq]; decide)
  · rw [heq] at h
    rcases h with h | h <;> exact absurd h nofun
  · exact hall _ hentry h
  · exact absurd h (by rw [heq]; decide)

section

variable {o o' : Options} {levels levels' : Nat} {lower lower' : Descent}
variable (hlower : AgreeWrapped levels levels' lower lower')

include hlower

theorem sameContents_of_wrapped {e e' : Dom.Element} (h : WrappedElement e e')
    (hclosed : Text.foldName e.name ∈ closedNames) (hheight : Dom.heightOf e.nodes < levels)
    (hheight' : Dom.heightOf e'.nodes < levels') : SameContents lower lower' e e' where
  attrs := by
    rw [h.tag]
    exact fun _ => rfl
  only := h.nodes.all_isText_eq hclosed
  text := fun _ => h.text_eq
  lowered := fun indent indent' =>
    hlower indent indent' e.name e e' (.of_element h) hheight hheight'

/-- The cells of a row below an element, in pairs. -/
theorem sameRows_of_wrapped {e e' row row' : Dom.Element} (h : WrappedElement row row')
    (hrow : row ∈ e.descendants) (hrow' : row' ∈ e'.descendants)
    (hheight : Dom.heightOf e.nodes < levels) (hheight' : Dom.heightOf e'.nodes < levels') :
    SameRows lower lower' row row' where
  cells := by
    have hcells := Dom.forall₂_with_mem
      (h.filter_descendants (fun name => name == "th" || name == "td") (by decide))
    refine hcells.imp fun cell cell' hcell => ?_
    rcases hcell with ⟨hmem, hmem', hcell⟩
    rw [List.mem_filter, Bool.or_eq_true, beq_iff_eq, beq_iff_eq] at hmem
    -- A cell is closed to wrappers, so the wrapper is not directly in it.
    have hclosed : Text.foldName cell.name ∈ closedNames := by
      rcases hmem.2 with hname | hname <;> rw [hname] <;> decide
    have hbelow := Dom.Element.heightOf_lt e cell
      (Dom.Element.descendants_subset e row hrow hmem.1)
    have hbelow' := Dom.Element.heightOf_lt e' cell'
      (Dom.Element.descendants_subset e' row' hrow' (List.mem_filter.mp hmem').1)
    exact sameContents_of_wrapped hlower hcell hclosed (by omega) (by omega)
  header := by
    have hheaders := h.filter_descendants (fun name => name == "th") (by decide)
    rw [Dom.Element.first?, Dom.Element.first?, ← List.head?_filter, ← List.head?_filter]
    generalize row.descendants.filter (fun d => d.name == "th") = headers at hheaders
    generalize row'.descendants.filter (fun d => d.name == "th") = headers' at hheaders
    cases hheaders <;> rfl

/-- Elements give the same answers with wrappers below them, if the descents agree. -/
theorem sameAnswers_of_wrapped (hmetadata : o'.metadata = o.metadata) {e e' : Dom.Element}
    (h : WrappedElement e e') (hparent : (e'.parent == "pre") = (e.parent == "pre"))
    (hheight : Dom.heightOf e.nodes < levels) (hheight' : Dom.heightOf e'.nodes < levels') :
    SameAnswers o o' lower lower' e e' where
  name := h.name_eq
  category := by rw [hmetadata]
  parent := hparent
  lowered := fun indent indent' =>
    hlower indent indent' e.name e e' (.of_element h) hheight hheight'
  attrs := fun _ => by
    rw [h.tag]
    exact fun _ => rfl
  text := fun _ => h.text_eq
  link := fun hlink =>
    sameContents_of_wrapped hlower h (closed_of_category (Or.inl hlink)) hheight hheight'
  items := fun hlist => by
    refine (Dom.forall₂_with_mem (h.children (closed_of_category (Or.inr hlist)))).imp
      fun c c' hc indent indent' => ?_
    have hbelow := Dom.Element.heightOf_lt_of_mem_children hc.1
    have hbelow' := Dom.Element.heightOf_lt_of_mem_children hc.2.1
    exact hlower indent indent' c.name c c' (.of_element hc.2.2) (by omega) (by omega)
  rows := fun _ => by
    have hrows := Dom.forall₂_with_mem
      (h.filter_descendants (fun name => name == "tr") (by decide))
    exact hrows.imp fun row row' hrow => sameRows_of_wrapped hlower hrow.2.2
      (List.mem_filter.mp hrow.1).1 (List.mem_filter.mp hrow.2.1).1 hheight hheight'
  head := fun _ => by rw [hmetadata, extractMetadata_wrapped h]

end

section

variable {o o' : Options} (ho : o.LowerAlike o') (hmetadata : o'.metadata = o.metadata)

include ho hmetadata

/-- Nodes with wrappers among them are lowered as without them, if the descents agree. A wrapper
    goes down one level more than the run in it, so the descent without wrappers may be asked with
    any number of levels. -/
theorem collect_wrapped {levels levels' : Nat}
    (hlower : ∀ levels, AgreeWrapped levels levels' (lowerLevels o levels) (lowerLevels o' levels'))
    (indent indent' : Int) {e e' : Dom.Element} (hrole : e'.innerRole = e.innerRole)
    {parent : String} {nodes nodes' : List Dom.Node} (h : Wrapped parent nodes nodes')
    (hpre : (e.name == "pre") = (parent == "pre")) (hpre' : (e'.name == "pre") = (parent == "pre"))
    (hheight : Dom.heightOf nodes ≤ levels) (hheight' : Dom.heightOf nodes' ≤ levels') :
    (Traced.collect (lowerChild o (lowerLevels o levels) indent e) nodes).result =
      (Traced.collect (lowerChild o' (lowerLevels o' levels') indent' e') nodes').result := by
  induction h with
  | nil => rfl
  | text content _ ih =>
      rw [Dom.heightOf, Nat.max_le] at hheight hheight'
      refine Traced.result_collect_cons_congr ?_ (ih hpre hpre' hheight.2 hheight'.2)
      exact (lowerChild_text ho.hooks _ indent e content).trans
        ((lowerText_congr content).trans (lowerChild_text ho.hooks' _ indent' e' content).symm)
  | special kind content _ ih =>
      rw [Dom.heightOf, Nat.max_le] at hheight hheight'
      refine Traced.result_collect_cons_congr ?_ (ih hpre hpre' hheight.2 hheight'.2)
      exact (lowerChild_special ho.hooks _ indent e kind content).trans
        (lowerChild_special ho.hooks' _ indent' e' kind content).symm
  | @element parent tag children children' _ _ hbelow _ _ ih =>
      rw [Dom.heightOf, Nat.max_le, Dom.Node.height] at hheight hheight'
      have hpair : WrappedElement ⟨e.name, e.innerRole, tag, children⟩
          ⟨e'.name, e'.innerRole, tag, children'⟩ := ⟨rfl, hrole, hbelow⟩
      refine Traced.result_collect_cons_congr ?_ (ih hpre hpre' hheight.2 hheight'.2)
      rw [lowerChild_element ho.hooks, lowerChild_element ho.hooks']
      exact lowerElement_congr ho indent indent' (sameAnswers_of_wrapped (hlower levels) hmetadata
        hpair (hpre'.trans hpre.symm) (by simp only; omega) (by simp only; omega))
  | @wrap parent tag run run' _ _ hname hopen _ hrun _ _ ih =>
      rw [Dom.heightOf_append, Nat.max_le] at hheight
      rw [Dom.heightOf, Nat.max_le, Dom.Node.height] at hheight'
      -- Neither the element around the run nor the wrapper is a `pre` element.
      have hparent : (parent == "pre") = false := by
        refine beq_eq_false_iff_ne.mpr fun heq => hopen ?_
        rw [heq]
        decide
      have hwrapper : (tag.name == "pre") = false := by
        refine beq_eq_false_iff_ne.mpr fun heq => absurd hname ?_
        rw [heq]
        decide
      have hcontents : WrappedContents tag.name { e with nodes := run }
          ⟨e'.name, e'.innerRole, tag, run'⟩ :=
        { nodes := hrun
          role := (Dom.within_of_wrapper hname e'.innerRole).trans hrole
          pre := hpre.trans (hparent.trans hwrapper.symm)
          pre' := rfl }
      have hlowered := hlower (levels + 1) indent (indent' + 1) _ _ _ hcontents
        (by simp only; omega) (by simp only; omega)
      refine (Traced.result_collect_append _ run _).trans (Traced.result_bind_congr ?_ fun _ =>
        Traced.result_bind_congr (ih hpre hpre' hheight.2 hheight'.2) fun _ => rfl)
      rw [lowerChild_element ho.hooks', lowerElement_of_unhandled
        (e := ⟨e'.name, e'.innerRole, tag, run'⟩) _ ho.hooks'.2 (categoryOf_wrapper _ hname)]
      exact hlowered

/-- The two recursions have the same outcome, by induction on the levels of the wrapped page. -/
theorem lowerLevels_wrapped (levels levels' : Nat) :
    AgreeWrapped levels levels' (lowerLevels o levels) (lowerLevels o' levels') := by
  induction levels' generalizing levels with
  | zero =>
      intro indent indent' parent e e' _ _ hheight'
      exact absurd hheight' (Nat.not_lt_zero _)
  | succ levels' ih =>
      intro indent indent' parent e e' h hheight hheight'
      cases levels with
      | zero => exact absurd hheight (Nat.not_lt_zero _)
      | succ levels =>
          exact collect_wrapped ho hmetadata ih indent indent' h.role h.nodes h.pre h.pre'
            (Nat.le_of_lt_succ hheight) (Nat.le_of_lt_succ hheight')

end

/-- A wrapper around some children of an element below, or of the element itself, does not change
    what it is lowered to, unless the element that holds the run is closed to wrappers or the page
    gets too deep. The outcome is the same whether it is a tree or an error. -/
theorem lower_transparent (o : Options) (hhooks : o.WithoutElementHooks) (indent : Int)
    (e : Dom.Element) (tag : Dom.Tag) (hname : tag.name = "div" ∨ tag.name = "span")
    (nodes : List Dom.Node) (hwrapped : WrappedOnce tag e.name e.nodes nodes)
    (hdepth : o.maxDepth.Allows (Dom.heightOf nodes)) :
    (lower o indent { e with nodes := nodes }).result = (lower o indent e).result := by
  have hwrapper : tag.name ∈ wrapperNames := by
    rcases hname with h | h <;> rw [h] <;> decide
  have hnodes : Wrapped e.name e.nodes nodes := hwrapped.wrapped hwrapper
  have hdepth' := hdepth.mono hnodes.heightOf_le
  rw [lower_of_allows hdepth, lower_of_allows hdepth']
  refine (lowerLevels_wrapped ⟨hhooks, hhooks, rfl, rfl⟩ rfl _ _ indent indent e.name e
    { e with nodes := nodes } ⟨hnodes, rfl, rfl, rfl⟩ ?_ ?_).symm
  · exact heightOf_lt_levelsWithin o.maxDepth e hdepth'
  · exact heightOf_lt_levelsWithin o.maxDepth { e with nodes := nodes } hdepth

/-- Two rows of a table, of which the second gets a wrapper. The wrapper takes a level of its own,
    so the page is one of four levels. -/
theorem lower_transparent_rows :
    let plain (name : String) (nodes : List Dom.Node) : Dom.Node := .element ⟨name, []⟩ nodes
    let row (cell text : String) : Dom.Node := plain "tr" [plain cell [.text text]]
    let page (rows : List Dom.Node) : List Dom.Node :=
      [plain "h2" [.text "Title"], plain "table" rows, .text "end"]
    let o : Options := { Options.default with maxDepth := .whole 4 }
    let e : Dom.Element := ⟨"body", .ordinary, ⟨"div", []⟩, page [row "th" "a", row "td" "b"]⟩
    let tag : Dom.Tag := ⟨"span", [("class", .list ["rows"])]⟩
    let nodes := page [row "th" "a", .element tag [row "td" "b"]]
    WrappedOnce tag e.name e.nodes nodes ∧ o.maxDepth.Allows (Dom.heightOf nodes) ∧
      (lower o 0 { e with nodes := nodes }).result = (lower o 0 e).result ∧
      (convertElement o e).markdown.result =
        .ok "## Title\n\n| a |\n| --- |\n| b |\nend" := by
  intro plain row page o e tag nodes
  -- The wrapper goes around the second row only.
  have hwrapped : WrappedOnce tag e.name e.nodes nodes :=
    .inside [plain "h2" [.text "Title"]] [.text "end"] ⟨"table", []⟩
      (.here [row "th" "a"] [row "td" "b"] [] (by decide) (by decide))
  have hdepth : o.maxDepth.Allows (Dom.heightOf nodes) := by decide
  exact ⟨hwrapped, hdepth, lower_transparent o ⟨rfl, rfl⟩ 0 e tag (Or.inr rfl) nodes hwrapped
    hdepth, by decide +kernel⟩

end PageDistill
