import PageDistill.Markup.Html
import PageDistill.Proofs.Convert.Finishing
import PageDistill.Proofs.Convert.PageShape
import PageDistill.Proofs.Dom.Equality
import PageDistill.Proofs.Lower.MetadataFree
import PageDistill.Proofs.MainContent.Found
import PageDistill.Proofs.Metadata.Extraction

/-!
# Metadata With Extraction

With extraction, asking for metadata adds the front matter to the main content as a whole.

When the element that was found leaves the head of the page behind, the head and the element
are written out one after the other and read as a page of their own. What is written depends on
the page: an element is written as it is, or with another encoding where it names that of its
markup (`Written`). What the new page is like depends on the reader. `ReadBack` says that the
reader gives back what was written: the two elements stand in an `html` element, the second one
perhaps in a body that the reader put around it, and their attributes may come in another order.

The root of that page is lowered. The head becomes its metadata. The element is lowered by
its own rule, and not only its children, as it is without metadata. So what follows the front
matter is what an element that holds the found one and nothing else is converted to
(`Element.alone`). For a main element this is its content between two comments, for a list it
is the list, and so on. Only where the element has no rule of its own, or is a paragraph, it
makes no difference that the element itself is lowered.

## Main definitions

* `Written`: What an element is written as.
* `Reread`: A node that an element was read back as.
* `ReadBack`: A page that a head and an element were read back as.
* `Element.alone`: An element that holds another one and nothing else.

## Theorems

* `lower_readBack`: The page read back is lowered to the metadata and to the element alone.
* `contentElement_graft`: The page read back is what is converted.
* `convertElement_alone`: When it makes no difference that the element itself is lowered.
* `convertPage_extracted`: The conversion adds the front matter to the element alone.
-/

namespace PageDistill

open Dom (Element Document AllSimilar Mates SameAttrs nothingHidden)
open Markdown (Node Metadata Attach metadataIn frontMatter)

/-- What an element is written as: as it is, or with the encoding of written markup where it
    names one. -/
inductive Written (e : Element) : Element → Prop where
  | asIs : Written e e
  | encoded : Written e (Markup.encodeElement e)

/-- A node that an element was read back as, in an `html` element: the same nodes, with the same
    values of their attributes. -/
def Reread (e : Element) (node : Dom.Node) : Prop :=
  Dom.Similar SameAttrs nothingHidden ["html"] .ordinary (.element e.tag e.nodes) node

/-- An element may be read back as it was. -/
theorem Reread.refl (e : Element) : Reread e (.element e.tag e.nodes) :=
  Dom.Similar.refl (fun _ _ => rfl) _ _ _

/-- A page that the markup of a head and an element was read back as. The reader may have put
    the element into a body. -/
inductive ReadBack (head element : Element) : Document → Prop where
  | beside {tag : Dom.Tag} {first second : Dom.Node} (hroot : tag.name = "html")
    (hhead : Reread head first) (helement : Reread element second) :
    ReadBack head element ⟨[.element tag [first, second]]⟩
  | inBody {tag body : Dom.Tag} {first second : Dom.Node} (hroot : tag.name = "html")
    (hbody : body.name = "body") (hhead : Reread head first) (helement : Reread element second) :
    ReadBack head element ⟨[.element tag [first, .element body [second]]]⟩

/-- An `html` element that holds an element and nothing else. -/
def Dom.Element.alone (e : Element) : Element :=
  ⟨Document.rootName, .ordinary, ⟨"html", []⟩, [.element e.tag e.nodes]⟩

section

variable {e e' : Element} (hwritten : Written e e')

include hwritten

theorem Written.name_eq : e'.name = e.name := by
  cases hwritten with
  | asIs => rfl
  | encoded => exact Markup.name_withEncoding e.tag

theorem Written.outerRole_eq : e'.outerRole = e.outerRole := by
  cases hwritten <;> rfl

/-- Writing an element changes at most what lowering does not look at. -/
theorem Written.similar (around : List String) :
    Dom.Similar Unobserved nothingHidden around .ordinary (.element e.tag e.nodes)
      (.element e'.tag e'.nodes) := by
  cases hwritten with
  | asIs => exact Dom.Similar.refl Unobserved.refl around .ordinary _
  | encoded =>
      refine Markup.similar_encodeNode around "" .ordinary _ fun d _ hname => ?_
      rw [Markup.withEncoding, if_neg hname]
      exact fun _ => rfl

variable {node : Dom.Node}

/-- An element that was written and read back is the same to lowering. -/
theorem Reread.unobserved (h : Reread e' node) :
    Dom.Similar Unobserved nothingHidden ["html"] .ordinary (.element e.tag e.nodes) node := by
  refine (hwritten.similar ["html"]).trans
    (fun tag tag' tag'' hwrite hread hname hmeta => ?_) h
  intro name
  rw [hread name, hwrite hmeta name]

theorem Reread.height_eq (h : Reread e' node) : node.height = Dom.heightOf e.nodes + 1 := by
  rw [(h.unobserved hwritten).height_eq, Dom.Node.height]

end

theorem name_alone (e : Element) : e.alone.name = "html" := rfl

theorem heightOf_alone (e : Element) : Dom.heightOf e.alone.nodes = Dom.heightOf e.nodes + 1 := by
  unfold Dom.Element.alone
  rw [Dom.heightOf, Dom.Node.height, Dom.heightOf]
  omega

section

variable {o : Options} {e e' : Element} {node : Dom.Node} {levels : Nat}

/-- The element read back, wherever it stands, is lowered like the element alone. -/
theorem lowerChild_reread (ho : o.WithoutElementHooks) (hwritten : Written e e')
    (hread : Reread e' node) (hname : Text.foldName e.name ≠ "head")
    (hheadless : ∀ d ∈ e.descendants, Text.foldName d.name ≠ "head")
    (hdepth : o.maxDepth.Allows (Dom.heightOf e.nodes + 1))
    (hlevels : Dom.heightOf e.nodes < levels) (indent : Int) {parent : Element}
    (hparent : (parent.name == "pre") = false) (hrole : parent.innerRole = .ordinary) :
    (lowerChild o (lowerLevels o levels) indent parent node).result =
      (lower o.withoutMetadata 0 e.alone).result := by
  have hlevels' := lt_levelsWithin (e := e.alone) hdepth (Nat.le_of_eq (heightOf_alone e).symm)
  -- Both runs have a level left for the element.
  rcases Nat.exists_eq_add_of_lt hlevels' with ⟨more, hmore⟩
  have hheight := hread.height_eq hwritten
  rw [lower_of_allows (o := o.withoutMetadata) hdepth]
  change _ = (lowerLevels o.withoutMetadata (levelsWithin o.maxDepth e.alone) 0 e.alone).result
  rw [hmore, lowerLevels]
  change _ = (Traced.collect _ [Dom.Node.element e.tag e.nodes]).result
  rw [Traced.result_collect_singleton]
  -- One run is without metadata and the other with it. They agree on what is no head.
  have halike : o.withoutMetadata.LowerAlike o := ⟨ho, ho, rfl, rfl⟩
  have hagree : AgreeBelow o.withoutMetadata o false (Dom.heightOf e.nodes + 1 + more) levels
      (lowerLevels o.withoutMetadata _) (lowerLevels o _) := agreeBelow_lowerLevels halike _ _
  have hsimilar : Dom.Similar Unobserved (OutOfSight false) ["html"] e.alone.innerRole
      (.element e.tag e.nodes) node :=
    (hread.unobserved hwritten).mono (fun _ _ h => h) fun _ _ _ _ h => h.elim
  have hname' : (parent.name == "pre") = (e.alone.name == "pre") := by
    rw [hparent, name_alone]
    decide
  have hrole' : parent.innerRole = e.alone.innerRole := hrole
  symm
  refine lowerChild_agree halike hagree 0 indent hname' hrole' (List.cons_ne_nil _ _) hsimilar
    (Or.inl ⟨?_, ?_⟩) fun _ d hd => ?_
  · rw [Dom.Node.height]
    omega
  · omega
  · rcases List.mem_cons.mp hd with rfl | hd
    · exact hname
    · -- The place of an element has no part in its tag.
      have htag : d.tag ∈ e.descendants.map Element.tag := by
        rw [Element.descendants, Dom.map_tag_elementsOf _ e.tag.name _
          (e.alone.innerRole.within e.tag.name)]
        exact List.mem_map_of_mem hd
      rcases List.mem_map.mp htag with ⟨d', hd', htag⟩
      rw [Element.name, ← htag]
      exact hheadless d' hd'

/-- A head that was read back becomes the metadata of what was written. -/
theorem lowerChild_reread_head (ho : o.WithoutElementHooks) (hwanted : o.metadata.wanted = true)
    {head : Element} (hname : head.name = "head") (hrole : head.outerRole = .ordinary)
    (hread : Reread head node) {lower : Descent} (indent : Int) {parent : Element}
    (hparent : parent.innerRole = .ordinary) :
    (lowerChild o lower indent parent node).result =
      (extractMetadata o.metadata.isExtended head).result.map fun m => [.metadata m] := by
  cases hread with
  | hidden _ _ h _ => exact h.elim
  | @element _ _ _ tag nodes nodes' htag hattrs hnodes =>
      have hmates : Mates TellsAlike nothingHidden (["html"] ++ [head.name]) head
          ⟨parent.name, parent.innerRole, tag, nodes'⟩ := by
        refine ⟨htag, tellsAlike_of_sameAttrs hattrs, ?_, ?_⟩
        · change parent.innerRole.within tag.name = head.outerRole.within head.tag.name
          rw [hparent, hrole, htag]
        · rw [Element.innerRole, hrole]
          exact hnodes.mono (fun _ _ h => tellsAlike_of_sameAttrs h) fun _ _ _ _ h => h
      unfold lowerChild
      rw [ho.1, ← extractMetadata_similar hmates]
      exact lowerElement_head (e := ⟨parent.name, parent.innerRole, tag, nodes'⟩) indent hwanted
        (htag.trans hname)

end

/-- A body with one node in it has no rule of its own. -/
theorem lowerChild_body {o : Options} (ho : o.WithoutElementHooks) (levels : Nat) (indent : Int)
    (parent : Element) {body : Dom.Tag} (hbody : body.name = "body") (node : Dom.Node) :
    (lowerChild o (lowerLevels o (levels + 1)) indent parent (.element body [node])).result =
      (lowerChild o (lowerLevels o levels) (indent + 1)
        ⟨parent.name, parent.innerRole, body, [node]⟩ node).result := by
  have hcategory : Dom.categoryOf o.metadata.wanted body.name = .unhandled := by
    rw [hbody]
    cases o.metadata.wanted <;> decide
  unfold lowerChild
  rw [ho.1]
  change (lowerElement o _ indent ⟨parent.name, parent.innerRole, body, [node]⟩).result = _
  rw [lowerElement_of_unhandled (e := ⟨parent.name, parent.innerRole, body, [node]⟩) indent ho.2
    hcategory, lowerLevels, Traced.result_collect_singleton]
  unfold lowerChild
  rw [ho.1]

theorem pageRoot_single (tag : Dom.Tag) (nodes : List Dom.Node) (hname : tag.name = "html") :
    pageRoot ⟨[.element tag nodes]⟩ = ⟨Document.rootName, .ordinary, tag, nodes⟩ := by
  have hfirst : firstElement? ⟨[.element tag nodes]⟩ "html" =
      some ⟨Document.rootName, .ordinary, tag, nodes⟩ := by
    rw [firstElement?, Element.first?, Element.descendants_eq_flatMap]
    change List.find? _ ((⟨Document.rootName, _, tag, nodes⟩ : Element) :: _) = _
    rw [List.find?_cons, Element.name_mk, hname]
    rfl
  rw [pageRoot, hfirst]
  rfl

/-- What follows the metadata in a row of two nodes is what the second one is lowered to. -/
theorem collect_metadata_pair {f : Dom.Node → Conversion (List Node)} {first second : Dom.Node}
    {m : Metadata} (hfirst : (f first).result = .ok [.metadata m]) :
    (Traced.collect f [first, second]).result =
      (f second).result.map fun nodes => .metadata m :: nodes := by
  rw [Traced.collect, Traced.result_bind, hfirst]
  change (Traced.collect f [second] >>= fun nodes => pure ([.metadata m] ++ nodes)).result = _
  rw [Traced.result_bind, Traced.result_collect_singleton]
  cases (f second).result <;> rfl

section

variable {o : Options} (ho : o.WithoutElementHooks) (hwanted : o.metadata.wanted = true)
variable {head e head' e' : Element} (hhead : head.name = "head")
variable (hrole : head.outerRole = .ordinary) {m : Metadata}

include ho hwanted hhead hrole

/-- A page that a head and an element were read back as is lowered to the metadata of the head
    and to what the element alone is lowered to. -/
theorem lower_readBack (hname : Text.foldName e.name ≠ "head")
    (hheadless : ∀ d ∈ e.descendants, Text.foldName d.name ≠ "head")
    (hdepth : o.maxDepth.Allows (Dom.heightOf e.nodes + 2)) (hwritten : Written head head')
    (hwritten' : Written e e') {d : Document} (hread : ReadBack head' e' d)
    (hm : (extractMetadata o.metadata.isExtended head').result = .ok m) :
    (lower o 0 (pageRoot d)).result =
      (lower o.withoutMetadata 0 e.alone).result.map fun nodes => .metadata m :: nodes := by
  have hdepth' := hdepth.mono (Nat.le_succ (Dom.heightOf e.nodes + 1))
  have hrole' : ∀ {tag : Dom.Tag}, tag.name = "html" →
      Dom.TextRole.ordinary.within tag.name = .ordinary := fun hroot => by rw [hroot]; decide
  have hfirst : ∀ {tag : Dom.Tag} {first : Dom.Node} {lower : Descent} (nodes : List Dom.Node),
      tag.name = "html" → Reread head' first →
      (lowerChild o lower 0 ⟨Document.rootName, .ordinary, tag, nodes⟩ first).result =
        .ok [.metadata m] := by
    intro tag first lower nodes hroot hfirst
    have hparent : (⟨Document.rootName, .ordinary, tag, nodes⟩ : Element).innerRole = .ordinary :=
      hrole' hroot
    rw [lowerChild_reread_head ho hwanted (hwritten.name_eq.trans hhead)
      (hwritten.outerRole_eq.trans hrole) hfirst 0 hparent, hm]
    rfl
  cases hread with
  | @beside tag first second hroot hhead helement =>
      rw [pageRoot_single _ _ hroot, lower_of_allows hdepth]
      have hlevels := lt_levelsWithin
        (e := ⟨Document.rootName, .ordinary, tag, [first, second]⟩) hdepth' (by
          rw [Dom.heightOf, Dom.heightOf, helement.height_eq hwritten']
          omega)
      rcases Nat.exists_eq_add_of_lt hlevels with ⟨more, hmore⟩
      rw [hmore, lowerLevels, collect_metadata_pair (hfirst _ hroot hhead)]
      refine congrArg _ (lowerChild_reread ho hwritten' helement hname hheadless hdepth' (by omega)
        0 ?_ (hrole' hroot))
      rw [Element.name_mk, hroot]
      decide
  | @inBody tag body first second hroot hbody hhead helement =>
      rw [pageRoot_single _ _ hroot, lower_of_allows hdepth]
      have hlevels := lt_levelsWithin
        (e := ⟨Document.rootName, .ordinary, tag, [first, .element body [second]]⟩) hdepth (by
          rw [Dom.heightOf, Dom.heightOf, Dom.Node.height, Dom.heightOf, Dom.heightOf,
            helement.height_eq hwritten']
          omega)
      obtain ⟨levels, hsame⟩ : ∃ levels, levelsWithin o.maxDepth
          ⟨Document.rootName, .ordinary, tag, [first, .element body [second]]⟩ = levels + 2 :=
        ⟨_, (Nat.sub_add_cancel (by omega)).symm⟩
      -- The body takes one level more.
      rw [hsame, lowerLevels, collect_metadata_pair (hfirst _ hroot hhead),
        lowerChild_body ho levels 0 _ hbody]
      refine congrArg _ (lowerChild_reread ho hwritten' helement hname hheadless hdepth' (by omega)
        _ ?_ ?_)
      · rw [Element.name_mk, hbody]
        decide
      · change (Dom.TextRole.ordinary.within tag.name).within body.name = .ordinary
        rw [hrole' hroot, hbody]
        decide

end

/-- Where the element itself makes no difference: it has no rule of its own, or it is a
    paragraph, whose line ends are trimmed. -/
theorem convertElement_alone (o : Options) (ho : o.WithoutElementHooks)
    (hnodes : o.WithoutNodeHooks) (hoff : o.metadata.wanted = false) (e : Element)
    (hrule : Dom.categoryOf false e.name = .unhandled ∨
      Dom.categoryOf false e.name = .paragraph)
    (hrole : e.innerRole = Dom.TextRole.ordinary.within e.name)
    (hdepth : o.maxDepth.Allows (Dom.heightOf e.nodes + 1)) :
    (convertElement o e.alone).markdown.result = (convertElement o e).markdown.result ∧
      (convertElement o e.alone).urlMap = (convertElement o e).urlMap := by
  have hlevels := lt_levelsWithin (e := e.alone) hdepth (Nat.le_of_eq (heightOf_alone e).symm)
  have hlevels' := heightOf_lt_levelsWithin o.maxDepth e (hdepth.mono (Nat.le_succ _))
  rcases Nat.exists_eq_add_of_lt hlevels with ⟨more, hmore⟩
  -- The child of the element alone is the element in another place.
  let child : Element := ⟨e.alone.name, e.alone.innerRole, e.tag, e.nodes⟩
  have hagree : ∀ indent, (lowerLevels o (Dom.heightOf e.nodes + 1 + more) indent child).result =
      (lower o 0 e).result := by
    intro indent
    rw [lower_of_allows hdepth]
    have hbelow : AgreeBelow o o false (Dom.heightOf e.nodes + 1 + more) (levelsWithin o.maxDepth e)
        (lowerLevels o _) (lowerLevels o _) := agreeBelow_lowerLevels ⟨ho, ho, rfl, rfl⟩ _ _
    refine hbelow _ _ [] child e ⟨⟨rfl, Unobserved.refl e.tag, hrole, ?_⟩,
      Or.inl ⟨?_, hlevels'⟩, fun hwanted => ?_⟩
    · exact AllSimilar.refl Unobserved.refl _ _ e.nodes
    · change Dom.heightOf e.nodes < _
      omega
    · rw [hoff, or_self] at hwanted
      exact absurd hwanted Bool.false_ne_true
  have halone : (lower o 0 e.alone).result =
      (lowerElement o (lowerLevels o (Dom.heightOf e.nodes + 1 + more)) 0 child).result := by
    rw [lower_of_allows hdepth, hmore, lowerLevels]
    change (Traced.collect _ [Dom.Node.element e.tag e.nodes]).result = _
    rw [Traced.result_collect_singleton]
    unfold lowerChild
    rw [ho.1]
    rfl
  rcases hrule with hrule | hrule
  · refine convertElement_congr o ?_
    rw [halone, lowerElement_of_unhandled (e := child) 0 ho.2 (by rw [hoff]; exact hrule), hagree]
  · refine convertElement_lineEnds o hnodes hoff ?_
    rw [halone, lowerElement_of_paragraph (e := child) 0 (by rw [hoff]; exact hrule), hagree]

section

variable {readers : Readers} {o : Options} {page : Page} {root head : Element}
variable {front back : List Element} (hpage : Headed page.document root head front back)
variable (hfilled : head.nodes ≠ []) (hextract : o.extractMainContent = true)
variable {found : MainContent.Placed}
variable (hfound : (MainContent.findMain page.document).result = .ok found)

include hpage hfilled hextract hfound

/-- When the found element leaves the head behind, the page that is read back is converted. -/
theorem contentElement_graft (hwanted : o.metadata.wanted = true)
    (hleaves : leavesHead found.element = true) {page' : Page}
    (hreopen : (openPage readers o.reader (graft page head found.element)).result = .ok page') :
    (contentElement readers o page).result = .ok (pageRoot page'.document) := by
  unfold contentElement
  simp only [hwanted, if_true, hextract, hpage.filledHead?_eq hfilled, Traced.result_bind, hfound]
  change (if leavesHead found.element = true then _ else _ : Conversion Element).result = _
  rw [if_pos hleaves, Traced.result_bind, hreopen]
  rfl

omit hpage hfilled in
/-- When metadata is not wanted, the found element is converted. -/
theorem contentElement_found (hoff : o.metadata.wanted = false) :
    (contentElement readers o page).result = .ok found.element := by
  unfold contentElement
  simp only [hoff, Bool.false_eq_true, if_false, hextract, if_true, Traced.result_bind, hfound]
  rfl

end

/-- With extraction, asking for metadata adds the front matter to the found element as a whole:
    the text is the block of the metadata of the head that is written out, and what the element
    alone is converted to without metadata, trimmed at the end. If the element has no rule of
    its own, or is a paragraph, and its text has the role that it would have at the top, this is
    what the page is converted to without metadata. -/
theorem convertPage_extracted (readers : Readers) (o : Options) (html : String)
    (ho : o.WithoutElementHooks) (hnodes : o.WithoutNodeHooks)
    (hextract : o.extractMainContent = true) (hwanted : o.metadata.wanted = true)
    {page page' : Page} {root head head' element' : Element} {front back : List Element}
    {found : MainContent.Placed} (hopen : (openPage readers o.reader html).result = .ok page)
    (hpage : Headed page.document root head front back) (hfilled : head.nodes ≠ [])
    (hdepth : o.maxDepth.Allows (Dom.heightOf page.document.nodes))
    (hfound : (MainContent.findMain page.document).result = .ok found)
    (hroot : found.element.name ≠ "html") (hhead : Text.foldName found.element.name ≠ "head")
    (hreopen : (openPage readers o.reader (graft page head found.element)).result = .ok page')
    (hwritten : Written head head') (hwritten' : Written found.element element')
    (hread : ReadBack head' element' page'.document) {m : Metadata}
    (hm : (extractMetadata o.metadata.isExtended head').result = .ok m) :
    ((convertPage readers o html).markdown.result =
        (convertElement o.withoutMetadata found.element.alone).markdown.result.map
          (withBlock (frontMatter o.metadata [.metadata m])) ∧
      (convertPage readers o html).urlMap =
        (convertElement o.withoutMetadata found.element.alone).urlMap) ∧
    ((Dom.categoryOf false found.element.name = .unhandled ∨
        Dom.categoryOf false found.element.name = .paragraph) →
      found.element.innerRole = Dom.TextRole.ordinary.within found.element.name →
      (convertElement o.withoutMetadata found.element.alone).markdown.result =
          (convertPage readers o.withoutMetadata html).markdown.result ∧
        (convertElement o.withoutMetadata found.element.alone).urlMap =
          (convertPage readers o.withoutMetadata html).urlMap) := by
  -- What was found is an element below the root, and so within the limit as well.
  have hmem : found.element ∈ root.descendants := by
    have hmem := (MainContent.findMain_ends page.document
      (by rw [hpage.descendants_eq]; exact nofun)).of_ok hfound
    rw [hpage.descendants_eq, List.mem_cons] at hmem
    refine hmem.resolve_left fun hsame => hroot ?_
    rw [hsame]
    exact hpage.root_name
  have hheight := hpage.heightOf_le hmem
  have hdepth := hdepth.mono hheight
  have hlower := lower_readBack ho hwanted hpage.head_name hpage.head_role hhead
    (hpage.headless hmem) hdepth hwritten hwritten' hread hm
  -- No metadata is told by the element itself.
  have hfree : ∀ nodes, (lower o.withoutMetadata 0 found.element.alone).result = .ok nodes →
      metadataIn nodes = [] := by
    intro nodes hresult
    rw [lower_of_allows (o := o.withoutMetadata) hdepth] at hresult
    exact (lowerLevels_metadataFree (o := o.withoutMetadata) ho _ 0 _ nofun).of_ok hresult
  -- With metadata the graft is converted, and without it the element that was found.
  have hon := convertPage_eq readers o html hopen (contentElement_graft hpage hfilled hextract
    hfound hwanted (hpage.leavesHead_eq hmem hroot) hreopen)
  have hoff := convertPage_eq readers o.withoutMetadata html hopen
    (contentElement_found (o := o.withoutMetadata) hextract hfound rfl)
  refine ⟨?_, fun hrule hrole => ?_⟩
  · rw [hon.1, hon.2]
    exact convertElement_attach o hnodes .before hlower hfree
  · rw [hoff.1, hoff.2]
    exact convertElement_alone o.withoutMetadata ho hnodes rfl found.element hrule hrole
      (hdepth.mono (Nat.le_succ _))

deriving instance DecidableEq for MainContent.Placed

/-- A page without a landmark and without a candidate, so that its body is found. The reader gives
    the head and the body back as they were. -/
theorem convertPage_extracted_body :
    let html := "<html><head><title>T</title></head>" ++
      "<body><h1 id=\"a\">One</h1><p>two</p></body></html>"
    let plain (name : String) (nodes : List Dom.Node) : Dom.Node := .element ⟨name, []⟩ nodes
    let head : Element := ⟨"html", .ordinary, ⟨"head", []⟩, [plain "title" [.text "T"]]⟩
    let body : Element := ⟨"html", .ordinary, ⟨"body", []⟩,
      [.element ⟨"h1", [("id", .text "a")]⟩ [.text "One"], plain "p" [.text "two"]]⟩
    let root : Element := ⟨"[document]", .ordinary, ⟨"html", []⟩,
      [.element head.tag head.nodes, .element body.tag body.nodes]⟩
    let d : Document := ⟨[.element root.tag root.nodes]⟩
    let page := Markup.htmlPage d
    let o := { strictWithMetadata with extractMainContent := true }
    let readers := Markup.htmlReaders
    let m := headEntries false head
    (openPage readers o.reader html).result = .ok page ∧ Headed d root head [] [body] ∧
      o.maxDepth.Allows (Dom.heightOf d.nodes) ∧
      (MainContent.findMain d).result = .ok ⟨[0, 1], body⟩ ∧
      (openPage readers o.reader (graft page head body)).result = .ok page ∧
      ReadBack head body d ∧ (extractMetadata o.metadata.isExtended head).result = .ok m ∧
      (convertPage readers o html).markdown.result =
        (convertPage readers o.withoutMetadata html).markdown.result.map
          (withBlock (frontMatter o.metadata [.metadata m])) ∧
      (convertPage readers o html).markdown.result =
        .ok "---\ntitle: \"T\"\n---\n\n# One\n\ntwo" := by
  intro html plain head body root d page o readers m
  have hopen : (openPage readers o.reader html).result = .ok page :=
    Markup.openPage_asWritten (by decide +kernel)
  have hpage : Headed d root head [] [body] := by decide
  have hdepth : o.maxDepth.Allows (Dom.heightOf d.nodes) := by decide
  have hfound : (MainContent.findMain d).result = .ok ⟨[0, 1], body⟩ := by decide +kernel
  have hreopen : (openPage readers o.reader (graft page head body)).result = .ok page :=
    Markup.openPage_asWritten (by decide +kernel)
  have hread : ReadBack head body d := .beside rfl (Reread.refl _) (Reread.refl _)
  have hm : (extractMetadata o.metadata.isExtended head).result = .ok m := rfl
  have hall := convertPage_extracted readers o html ⟨rfl, rfl⟩ ⟨rfl, rfl⟩ rfl rfl hopen hpage nofun
    hdepth hfound (by decide) (by decide) hreopen .asIs .asIs hread hm
  refine ⟨hopen, hpage, hdepth, hfound, hreopen, hread, hm, ?_, by decide +kernel⟩
  rw [hall.1.1, (hall.2 (Or.inl (by decide)) (by decide)).1]

/-- A main element is more than its contents: between two comments when it is lowered itself, and
    without them when only its children are. The two conversions also differ when the `html`
    element or the head was found, since without metadata the head has no rule of its own, and
    when the found element stands where its text has another role. -/
theorem convertPage_extracted_main :
    let html := "<html><head><title>T</title></head><body><main>x</main></body></html>"
    let head : Element := ⟨"html", .ordinary, ⟨"head", []⟩, [.element ⟨"title", []⟩ [.text "T"]]⟩
    let main : Element := ⟨"body", .ordinary, ⟨"main", []⟩, [.text "x"]⟩
    let body : Element := ⟨"html", .ordinary, ⟨"body", []⟩, [.element main.tag main.nodes]⟩
    let root : Element := ⟨"[document]", .ordinary, ⟨"html", []⟩,
      [.element head.tag head.nodes, .element body.tag body.nodes]⟩
    let d : Document := ⟨[.element root.tag root.nodes]⟩
    let d' : Document :=
      ⟨[.element ⟨"html", []⟩ [.element head.tag head.nodes, .element main.tag main.nodes]]⟩
    let page := Markup.htmlPage d
    let o := { strictWithMetadata with extractMainContent := true }
    let readers := Markup.htmlReaders
    let block := frontMatter o.metadata [.metadata (headEntries false head)]
    (openPage readers o.reader html).result = .ok page ∧ Headed d root head [] [body] ∧
      o.maxDepth.Allows (Dom.heightOf d.nodes + 3) ∧
      (MainContent.findMain d).result = .ok ⟨[0, 1, 0], main⟩ ∧
      (openPage readers o.reader (graft page head main)).result = .ok (Markup.htmlPage d') ∧
      ReadBack head main d' ∧
      (extractMetadata o.metadata.isExtended head).result = .ok (headEntries false head) ∧
      ∀ page ∈ [(html, "<!-- main -->\nx\n<!-- /main -->", "x"),
        ("<html role=\"main\"><head><title>T</title></head><body>x</body></html>", "x", "T x"),
        ("<html><head role=\"main\"><title>T</title></head><body>x</body></html>", "", "T"),
        ("<html><head><title>T</title></head><body><template><p role=\"main\"><b>x</b></p>" ++
          "</template></body></html>", "**x**", "")],
        (convertPage readers o page.1).markdown.result = .ok (withBlock block page.2.1) ∧
          (convertPage readers o.withoutMetadata page.1).markdown.result = .ok page.2.2 ∧
          withBlock block page.2.1 ≠ withBlock block page.2.2 := by
  intro html head main body root d d' page o readers block
  exact ⟨Markup.openPage_asWritten (by decide +kernel), by decide, by decide, by decide +kernel,
    Markup.openPage_asWritten (by decide +kernel), .beside rfl (Reread.refl _) (Reread.refl _), rfl,
    by decide +kernel⟩

end PageDistill
