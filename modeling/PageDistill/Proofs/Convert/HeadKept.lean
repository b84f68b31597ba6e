import PageDistill.Proofs.Convert.Grafting

/-!
# The Front Matter Is That of the Head

Whatever element is converted, the front matter tells the metadata of the head of the page.

There are four ways in which an element of a page with one head is chosen when metadata is
wanted. The root is chosen without extraction, and with extraction when it was found itself.
It holds the head, and nothing else below it has metadata. If an element below the root was
found, the page that is read back is chosen, and the head comes first in it. If the head is
empty, an element below the root may be chosen as it is; the head has nothing to tell, and the
block is as empty as it is for a tree without metadata. In all four the block is the same
(`convertPage_frontMatter`), so extraction makes no difference to it.

Two cases are special. A limit below zero keeps no structure at all, so the head becomes text
like anything else, with or without extraction. And a head may name another encoding of its
markup when it is written out than it did before. If an entry of the head tells that encoding,
extraction changes the front matter (`convertPage_names_encoding`).

## Main definitions

* `DepthLimit.keepsNothing`: A limit that allows no structure.
* `headMetadata`: The metadata that is told of a page with a head.
* `HeadFirst`: A page whose first element was read back from a head.
* `ReadsHeadBack`: Readers that give back the head of a page.

## Theorems

* `metadataOf_lower_root`: What is told of the root.
* `metadataOf_lower_headFirst`: What is told of a page that was read back.
* `frontMatter_contentElement`: The block for the element that is chosen.
* `convertPage_frontMatter`: The block of a conversion, with and without extraction.
-/

namespace PageDistill

open Dom (Element Document)
open Markdown (Node Metadata metadataIn metadataOf frontMatter)

/-- A limit that allows no structure, not even the children of an element. -/
def DepthLimit.keepsNothing (limit : DepthLimit) : Bool :=
  match limit.deepest? with
  | some depth => depth < 0
  | none => false

/-- The metadata that is told of a page with a head: that of the head, if any structure is
    kept. -/
def headMetadata (o : Options) (head : Element) : Metadata :=
  if o.maxDepth.keepsNothing then Metadata.empty
  else (extractMetadata o.metadata.isExtended head).result.toOption.getD Metadata.empty

/-- A page whose `html` element begins with what a head was read back as, whatever follows. -/
def HeadFirst (head : Element) (d : Document) : Prop :=
  ∃ tag first rest, d = ⟨[.element tag (first :: rest)]⟩ ∧ tag.name = "html" ∧ Reread head first

/-- Readers that give back the head of a page: whatever element was found, the page that is read
    again begins with the head as it was written. -/
def ReadsHeadBack (readers : Readers) (reader : PageReader) (page : Page) (head : Element) : Prop :=
  ∀ found, (MainContent.findMain page.document).result = .ok found →
    found.element.name ≠ "html" → ∀ page',
    (openPage readers reader (graft page head found.element)).result = .ok page' →
    ∃ head', Written head head' ∧ HeadFirst head' page'.document

/-- Whether a level is left at the top depends on the limit alone. -/
theorem levelsWithin_cases (limit : DepthLimit) (e : Element) :
    (limit.keepsNothing = true ∧ levelsWithin limit e = 0) ∨
      limit.keepsNothing = false ∧ ∃ levels, levelsWithin limit e = levels + 1 := by
  unfold DepthLimit.keepsNothing levelsWithin
  cases limit.deepest? with
  | none => exact Or.inr ⟨rfl, _, rfl⟩
  | some depth =>
      by_cases hdepth : depth < 0
      · exact Or.inl ⟨decide_eq_true hdepth, by simp only; omega⟩
      · exact Or.inr ⟨decide_eq_false hdepth, depth.toNat, by simp only; omega⟩

/-- An outcome of lowering is one of the recursion on levels. -/
theorem lowerLevels_of_lower {o : Options} {indent : Int} {e : Element} {nodes : List Node}
    (h : (lower o indent e).result = .ok nodes) :
    (lowerLevels o (levelsWithin o.maxDepth e) indent e).result = .ok nodes := by
  unfold lower at h
  cases hlimit : o.maxDepth with
  | unordered kind =>
      rw [hlimit] at h
      exact nomatch h
  | whole n =>
      rw [hlimit] at h
      exact h
  | fraction x =>
      rw [hlimit] at h
      exact h

/-- Whether a node is a head. -/
def Dom.Node.isHead : Dom.Node → Bool
  | .element tag _ => tag.name == "head"
  | _ => false

section

variable {o : Options} {e : Element} {nodes : List Node}

/-- What is told of a tree is what a head tells, if this is so of a tree of which at least one
    level is kept. A tree of which no structure is kept tells nothing. -/
theorem metadataOf_of_levels (head : Element) (h : (lower o 0 e).result = .ok nodes)
    (hlevels : o.maxDepth.keepsNothing = false → ∀ levels,
      (lowerLevels o (levels + 1) 0 e).result = .ok nodes →
        metadataOf nodes = headMetadata o head) :
    metadataOf nodes = headMetadata o head := by
  have hnodes := lowerLevels_of_lower h
  rcases levelsWithin_cases o.maxDepth e with ⟨hlimit, hzero⟩ | ⟨hlimit, levels, hsucc⟩
  · rw [hzero] at hnodes
    rw [Markdown.metadataOf_eq, flatten_metadataFree.of_ok hnodes, headMetadata, if_pos hlimit]
    rfl
  · rw [hsucc] at hnodes
    exact hlevels hlimit levels hnodes

/-- Whatever makes a node of the metadata of a head tells that metadata. -/
theorem ends_of_extraction {head : Element} (hlimit : o.maxDepth.keepsNothing = false)
    {x : Conversion (List Node)} (hx : x.result =
      (extractMetadata o.metadata.isExtended head).result.map fun m => [.metadata m]) :
    x.Ends (fun nodes => metadataIn nodes = [headMetadata o head]) fun _ => True := by
  unfold Traced.Ends headMetadata
  rw [hx, hlimit, if_neg Bool.false_ne_true]
  cases (extractMetadata o.metadata.isExtended head).result with
  | error fault => exact True.intro
  | ok m => rfl

variable (hwanted : o.metadata.wanted = true)

include hwanted

variable (ho : o.WithoutElementHooks)

include ho

section

variable {d : Document} {root head : Element} {front back : List Element}
variable (hpage : Headed d root head front back)

include hpage

/-- Of the nodes of the root only the head adds metadata. -/
theorem lowerChild_root_ends (hlimit : o.maxDepth.keepsNothing = false) (levels : Nat)
    (node : Dom.Node) (hmem : node ∈ root.nodes) :
    (lowerChild o (lowerLevels o levels) 0 root node).Ends
      (fun out => metadataIn out = ([node].filter Dom.Node.isHead).map fun _ => headMetadata o head)
      fun _ => True := by
  -- A node that is no head, with no head below it, adds no metadata.
  have hfree : node.isHead = false →
      (∀ x ∈ node.elements root.name root.innerRole, Text.foldName x.name ≠ "head") →
      (lowerChild o (lowerLevels o levels) 0 root node).Ends
        (fun out => metadataIn out =
          ([node].filter Dom.Node.isHead).map fun _ => headMetadata o head)
        fun _ => True := by
    intro hother hheadless
    simp only [List.filter_cons, hother, Bool.false_eq_true, if_false, List.filter_nil,
      List.map_nil]
    exact lowerChild_metadataFree ho levels 0 hmem fun _ => hheadless
  cases node with
  | text content => exact hfree rfl nofun
  | special kind content => exact hfree rfl nofun
  | element tag contents =>
      have hchild : (⟨root.name, root.innerRole, tag, contents⟩ : Element) ∈ root.children :=
        (Element.mem_children_iff root _).mpr ⟨hmem, rfl, rfl⟩
      have hbelow := hpage.below _ hchild
      rw [hpage.parts, List.mem_append, List.mem_cons, or_left_comm] at hchild
      rcases hchild with hsame | hother
      -- The head itself: whatever its extraction tells is the metadata.
      · have hname : Dom.Node.isHead (.element tag contents) = true := by
          rw [Dom.Node.isHead, beq_iff_eq, ← hpage.head_name, ← hsame]
          rfl
        unfold lowerChild
        rw [ho.1, List.filter_cons_of_pos hname]
        change (lowerElement o _ 0 ⟨root.name, root.innerRole, tag, contents⟩).Ends _ _
        rw [hsame]
        exact ends_of_extraction hlimit (lowerElement_head 0 hwanted hpage.head_name)
      -- A child beside the head has another name, even if the case of letters is ignored.
      · have hname : Text.foldName tag.name ≠ "head" :=
          hpage.beside ⟨root.name, root.innerRole, tag, contents⟩ (List.mem_append.mpr hother)
        have hisHead : Dom.Node.isHead (.element tag contents) = false := by
          rw [Dom.Node.isHead, beq_eq_false_iff_ne]
          intro heq
          rw [heq] at hname
          exact hname (by decide)
        refine hfree hisHead fun x hx => ?_
        rcases List.mem_cons.mp hx with rfl | hx
        · exact hname
        · exact hbelow x hx

/-- What is told of the root of a page is what its head tells. -/
theorem metadataOf_lower_root (h : (lower o 0 root).result = .ok nodes) :
    metadataOf nodes = headMetadata o head := by
  refine metadataOf_of_levels head h fun hlimit levels hnodes => ?_
  rw [lowerLevels] at hnodes
  have hends : (Traced.collect (lowerChild o (lowerLevels o levels) 0 root) root.nodes).Ends
      (fun out => metadataIn out =
        (root.nodes.filter Dom.Node.isHead).map fun _ => headMetadata o head) fun _ => True := by
    refine Traced.Ends.collect (fun l out =>
      metadataIn out = (l.filter Dom.Node.isHead).map fun _ => headMetadata o head) _ _ rfl ?_
      (lowerChild_root_ends hwanted ho hpage hlimit levels)
    intro node rest out others hout hothers
    rw [Markdown.metadataIn_append, hout, hothers, ← List.map_append, ← List.filter_append]
    rfl
  -- The head is among the nodes of the root.
  have hhead : Dom.Node.element head.tag head.nodes ∈ root.nodes.filter Dom.Node.isHead :=
    List.mem_filter.mpr ⟨((Element.mem_children_iff root head).mp hpage.head_mem).1,
      beq_iff_eq.mpr hpage.head_name⟩
  rw [Markdown.metadataOf_eq, hends.of_ok hnodes]
  cases hfilter : root.nodes.filter Dom.Node.isHead with
  | nil =>
      rw [hfilter] at hhead
      exact absurd hhead List.not_mem_nil
  | cons first rest => rfl

end

/-- What is told of a page that was read back is what the written head tells: it comes first. -/
theorem metadataOf_lower_headFirst {head : Element} (hname : head.name = "head")
    (hrole : head.outerRole = .ordinary) {d : Document} (hread : HeadFirst head d)
    (h : (lower o 0 (pageRoot d)).result = .ok nodes) : metadataOf nodes = headMetadata o head := by
  refine metadataOf_of_levels head h fun hlimit levels hnodes => ?_
  rcases hread with ⟨tag, first, rest, rfl, hroot, hfirst⟩
  rw [pageRoot_single _ _ hroot, lowerLevels] at hnodes
  -- The head comes first, so its metadata does, whatever follows it.
  have hends : (Traced.collect (lowerChild o (lowerLevels o levels) 0
      ⟨Document.rootName, .ordinary, tag, first :: rest⟩) (first :: rest)).Ends
      (fun out => (metadataIn out).head? = some (headMetadata o head)) fun _ => True := by
    refine (ends_of_extraction hlimit (lowerChild_reread_head ho hwanted hname hrole hfirst 0
      ?_)).bind fun lowered hlowered => (Traced.Ends.any _).bind fun others _ =>
        Traced.Ends.pure ?_
    · change Dom.TextRole.ordinary.within tag.name = .ordinary
      rw [hroot]
      decide
    · rw [Markdown.metadataIn_append, hlowered]
      rfl
  rw [Markdown.metadataOf_eq, hends.of_ok hnodes]
  rfl

end

/-- A head without contents has nothing to tell. -/
theorem frontMatter_emptyHead (o : Options) (head : Element) (hnil : head.nodes = []) :
    frontMatter o.metadata [.metadata (headMetadata o head)] = frontMatter o.metadata [] := by
  have hnamed : ∀ name, head.named name = [] := by
    intro name
    rw [Element.named, Element.descendants, hnil]
    rfl
  unfold headMetadata
  by_cases hlimit : o.maxDepth.keepsNothing = true
  · rw [if_pos hlimit]
    rfl
  · rw [if_neg hlimit]
    unfold extractMetadata structuredData headEntries
    simp only [hnamed]
    unfold frontMatter
    cases o.metadata.wanted with
    | false => rfl
    | true => cases o.metadata.isExtended <;> rfl

section

variable {readers : Readers} {o : Options} {page : Page} {root head : Element}
variable {front back : List Element} (hpage : Headed page.document root head front back)

include hpage

theorem mem_root_descendants {x : Element} (hx : x ∈ page.document.root.descendants) :
    x = root ∨ x ∈ root.descendants := by
  rw [hpage.descendants_eq, List.mem_cons] at hx
  exact hx

/-- The elements that may be chosen when metadata is wanted: the root, any element below it if
    the head is empty, and otherwise what was read back of the head and a found element. -/
theorem contentElement_cases (hwanted : o.metadata.wanted = true)
    (hhtml : ∀ x ∈ root.descendants, x.name ≠ "html") {e : Element}
    (h : (contentElement readers o page).result = .ok e) :
    e = root ∨ (head.nodes = [] ∧ e ∈ root.descendants) ∨
      ∃ found page', (MainContent.findMain page.document).result = .ok found ∧
        found.element.name ≠ "html" ∧
        (openPage readers o.reader (graft page head found.element)).result = .ok page' ∧
        e = pageRoot page'.document := by
  unfold contentElement at h
  simp only [hwanted, if_true] at h
  cases hextract : o.extractMainContent with
  | false =>
      simp only [hextract, Bool.false_eq_true, if_false] at h
      -- Only a head with contents keeps the root from being left for the body.
      by_cases hnil : head.nodes = []
      · rw [hpage.filledHead?_empty hnil, hpage.pageRoot_eq] at h
        cases hbody : firstElement? page.document "body" with
        | none =>
            rw [hbody] at h
            exact Or.inl (Except.ok.inj h).symm
        | some body =>
            rw [hbody] at h
            rw [← Except.ok.inj h]
            rcases mem_root_descendants hpage (List.mem_of_find?_eq_some hbody) with hsame | hmem
            · exact Or.inl hsame
            · exact Or.inr (Or.inl ⟨hnil, hmem⟩)
      · rw [hpage.filledHead?_eq hnil, hpage.pageRoot_eq] at h
        exact Or.inl (Except.ok.inj h).symm
  | true =>
      rcases (MainContent.findMain_ends page.document
          (by rw [hpage.descendants_eq]; exact nofun)).cases with
        ⟨found, hfound, hmem⟩ | ⟨_, _, hfalse⟩
      · have hmem := mem_root_descendants hpage hmem
        simp only [hextract, if_true, Traced.result_bind, hfound] at h
        by_cases hnil : head.nodes = []
        · rw [hpage.filledHead?_empty hnil] at h
          rw [← Except.ok.inj h]
          exact hmem.imp id fun hbelow => Or.inl ⟨hnil, hbelow⟩
        · rw [hpage.filledHead?_eq hnil] at h
          change (if leavesHead found.element = true then _ else _ : Conversion Element).result = _
            at h
          -- The root holds its head. Anything below leaves the head behind, so both are read again.
          rcases hmem with hsame | hbelow
          · rw [hsame, hpage.leavesHead_root] at h
            exact Or.inl (Except.ok.inj h).symm
          · have hname := hhtml _ hbelow
            rw [hpage.leavesHead_eq hbelow hname, if_pos rfl, Traced.result_bind] at h
            cases hreopen : (openPage readers o.reader (graft page head found.element)).result with
            | error fault =>
                rw [hreopen] at h
                exact nomatch h
            | ok page' =>
                rw [hreopen] at h
                exact Or.inr (Or.inr ⟨found, page', hfound, hname, hreopen,
                  (Except.ok.inj h).symm⟩)
      · exact hfalse.elim

omit hpage in
/-- A head tells the same after it was written, unless it tells of its encoding. -/
theorem Written.headMetadata_eq {head' : Element} (hwritten : Written head head')
    (hname : head.name = "head") (hencoding : NamesNoEncoding head) :
    headMetadata o head' = headMetadata o head := by
  cases hwritten with
  | asIs => rfl
  | encoded =>
      unfold headMetadata
      rw [extractMetadata_encodeElement o.metadata.isExtended head (by rw [hname]; decide)
        hencoding]

variable (ho : o.WithoutElementHooks) (hhtml : ∀ x ∈ root.descendants, x.name ≠ "html")
variable (hencoding : NamesNoEncoding head) (hread : ReadsHeadBack readers o.reader page head)

include ho hhtml hencoding hread

/-- Whatever element is chosen, the block is that of the head. -/
theorem frontMatter_contentElement {e : Element}
    (hcontent : (contentElement readers o page).result = .ok e) {nodes : List Node}
    (hnodes : (lower o 0 e).result = .ok nodes) :
    frontMatter o.metadata nodes = frontMatter o.metadata [.metadata (headMetadata o head)] := by
  by_cases hwanted : o.metadata.wanted = true
  · rcases contentElement_cases hpage hwanted hhtml hcontent with
      rfl | ⟨hnil, hbelow⟩ | ⟨found, page', hfound, hname, hreopen, rfl⟩
    · exact Markdown.frontMatter_congr _ (metadataOf_lower_root hwanted ho hpage hnodes)
    -- The head has nothing to tell, and neither has anything below the root.
    · rw [frontMatter_emptyHead o head hnil]
      refine Markdown.frontMatter_congr _ ?_
      rw [Markdown.metadataOf_eq, (lowerLevels_metadataFree ho _ 0 e
        fun _ => hpage.headless hbelow).of_ok (lowerLevels_of_lower hnodes)]
      rfl
    -- The head was written and read again, and its entries name no encoding.
    · rcases hread found hfound hname page' hreopen with ⟨head', hwritten, hfirst⟩
      have hmetadata := metadataOf_lower_headFirst hwanted ho
        (hwritten.name_eq.trans hpage.head_name) (hwritten.outerRole_eq.trans hpage.head_role)
        hfirst hnodes
      exact Markdown.frontMatter_congr _
        (hmetadata.trans (hwritten.headMetadata_eq hpage.head_name hencoding))
  · unfold frontMatter
    rw [if_neg hwanted, if_neg hwanted]

/-- What is written for a page is the block of its head and then the content. -/
theorem convertPage_block {html : String}
    (hopen : (openPage readers o.reader html).result = .ok page) :
    (convertPage readers o html).markdown.result = (pageContent readers o html).result.map
      (withBlock (frontMatter o.metadata [.metadata (headMetadata o head)])) :=
  convertPage_withBlock readers o html hopen _ fun _ _ hcontent hnodes =>
    frontMatter_contentElement hpage ho hhtml hencoding hread hcontent hnodes

end

/-- Extraction has no part in the front matter: with it and without it, what is written is the
    block of the metadata of the head and then the content, whatever element is found. The head
    must not tell the encoding of its markup. -/
theorem convertPage_frontMatter (readers : Readers) (o : Options) (html : String)
    (ho : o.WithoutElementHooks) {page : Page} {root head : Element} {front back : List Element}
    (hopen : (openPage readers o.reader html).result = .ok page)
    (hpage : Headed page.document root head front back)
    (hhtml : ∀ x ∈ root.descendants, x.name ≠ "html") (hencoding : NamesNoEncoding head)
    (hread : ReadsHeadBack readers o.reader page head) :
    ∀ extract : Bool,
      (convertPage readers { o with extractMainContent := extract } html).markdown.result =
        (pageContent readers { o with extractMainContent := extract } html).result.map
          (withBlock (frontMatter o.metadata [.metadata (headMetadata o head)])) := by
  intro extract
  exact convertPage_block (o := { o with extractMainContent := extract }) hpage ho hhtml hencoding
    hread hopen

/-- A head with an encoding, an entity in the title and a block of structured data, which is written
    out and read again before a main element. The encoding is another one then, but no entry tells
    of it. -/
theorem convertPage_frontMatter_main :
    let html := "<!DOCTYPE html><html><head><meta charset=\"latin-1\"><title>A &amp; B</title>" ++
      "<script type=\"application/ld+json\">\x7b\"@type\":\"T\"\x7d</script></head>" ++
      "<body><main>x</main></body></html>"
    let tagged (name key value : String) (nodes : List Dom.Node) : Dom.Node :=
      .element ⟨name, [(key, .text value)]⟩ nodes
    let nodes (encoding : String) : List Dom.Node := [tagged "meta" "charset" encoding [],
      .element ⟨"title", []⟩ [.text "A & B"],
      tagged "script" "type" structuredDataType [.text "\x7b\"@type\":\"T\"\x7d"]]
    let head : Element := ⟨"html", .ordinary, ⟨"head", []⟩, nodes "latin-1"⟩
    let main : Element := ⟨"body", .ordinary, ⟨"main", []⟩, [.text "x"]⟩
    let body : Element := ⟨"html", .ordinary, ⟨"body", []⟩, [.element main.tag main.nodes]⟩
    let root : Element := ⟨"[document]", .ordinary, ⟨"html", []⟩,
      [.element head.tag head.nodes, .element body.tag body.nodes]⟩
    let d : Document := ⟨[.special .doctype "html", .element root.tag root.nodes]⟩
    let d' : Document := ⟨[.element ⟨"html", []⟩
      [.element head.tag (nodes "utf-8"), .element main.tag main.nodes]]⟩
    let page := Markup.htmlPage d
    let o := { strictWithMetadata with metadata := .extended }
    let readers := Markup.htmlReaders
    let block := "---\ntitle: \"A &amp; B\"\nschema:\n  T:\n---\n\n"
    (openPage readers o.reader html).result = .ok page ∧ Headed d root head [] [body] ∧
      (∀ x ∈ root.descendants, x.name ≠ "html") ∧ NamesNoEncoding head ∧
      (MainContent.findMain d).result = .ok ⟨[1, 1, 0], main⟩ ∧
      (openPage readers o.reader (graft page head main)).result = .ok (Markup.htmlPage d') ∧
      ReadsHeadBack readers o.reader page head ∧
      (∀ extract : Bool,
        (convertPage readers { o with extractMainContent := extract } html).markdown.result =
          (pageContent readers { o with extractMainContent := extract } html).result.map
            (withBlock (frontMatter o.metadata [.metadata (headMetadata o head)]))) ∧
      frontMatter o.metadata [.metadata (headMetadata o head)] = block.toList ∧
      (convertPage readers { o with extractMainContent := true } html).markdown.result =
        .ok (withBlock block.toList "<!-- main -->\nx\n<!-- /main -->") := by
  intro html tagged nodes head main body root d d' page o readers block
  have hopen : (openPage readers o.reader html).result = .ok page :=
    Markup.openPage_asWritten (by decide +kernel)
  have hpage : Headed page.document root head [] [body] := by decide
  have hhtml : ∀ x ∈ root.descendants, x.name ≠ "html" := by decide
  have hnames : NamesNoEncoding head := by decide
  have hfound : (MainContent.findMain d).result = .ok ⟨[1, 1, 0], main⟩ := by decide +kernel
  have hreopen : (openPage readers o.reader (graft page head main)).result =
      .ok (Markup.htmlPage d') := Markup.openPage_asWritten (by decide +kernel)
  -- Writing the page changes the encoding that the head names.
  have hwritten : Markup.encodeElement head = { head with nodes := nodes "utf-8" } := by
    decide +kernel
  -- There is only one element to be found, and one graft to be read.
  have hread : ReadsHeadBack readers o.reader page head := by
    intro found hfound' _ page' hreopen'
    refine ⟨_, .encoded, ?_⟩
    rw [← Except.ok.inj (hfound.symm.trans hfound'), hreopen] at hreopen'
    rw [← Except.ok.inj hreopen', hwritten]
    exact ⟨_, _, _, rfl, rfl, Reread.refl _⟩
  have hgraft := contentElement_graft (o := { o with extractMainContent := true }) hpage nofun rfl
    hfound rfl (by decide) hreopen
  have hfinish := convertPage_eq readers { o with extractMainContent := true } html hopen hgraft
  have hon := hfinish.1.trans
    (show _ = Except.ok (withBlock block.toList "<!-- main -->\nx\n<!-- /main -->") by
      decide +kernel)
  have hall := convertPage_frontMatter readers o html ⟨rfl, rfl⟩ hopen hpage hhtml hnames hread
  exact ⟨hopen, hpage, hhtml, hnames, hfound, hreopen, hread, hall, by decide +kernel, hon⟩

/-- Attributes that are in the order of their names are written as they come. -/
theorem Markup.writeAttrs_of_sorted (attrs : List (String × Dom.AttrValue))
    (h : attrs.Pairwise fun a b => a.1 ≤ b.1) :
    Markup.writeAttrs attrs = attrs.flatMap fun (name, value) => Markup.writeAttr name value := by
  unfold Markup.writeAttrs
  rw [List.mergeSort_of_pairwise (h.imp fun hle => decide_eq_true hle)]

/-- A head that tells the encoding of its markup, as it is written. -/
theorem Markup.writeElement_contentType :
    Markup.writeElement ⟨"html", .ordinary, ⟨"head", []⟩,
        [.element ⟨"meta", [("content", .text "text/html; charset=utf-8"),
          ("http-equiv", .text "Content-Type"), ("name", .text "ct")]⟩ [],
        .element ⟨"title", []⟩ [.text "T"]]⟩ =
      ("<head><meta content=\"text/html; charset=utf-8\" http-equiv=\"Content-Type\" " ++
        "name=\"ct\"/><title>T</title></head>").toList := by
  have hattrs : Markup.writeAttrs [("content", .text "text/html; charset=utf-8"),
        ("http-equiv", .text "Content-Type"), ("name", .text "ct")] =
      " content=\"text/html; charset=utf-8\" http-equiv=\"Content-Type\" name=\"ct\"".toList := by
    -- Sorting does not compute in the kernel, so the order is checked by itself.
    rw [Markup.writeAttrs_of_sorted _ (by decide)]
    decide +kernel
  have hmeta : ∀ raw, Markup.writeNode raw (.element ⟨"meta",
        [("content", .text "text/html; charset=utf-8"), ("http-equiv", .text "Content-Type"),
          ("name", .text "ct")]⟩ []) =
      ("<meta content=\"text/html; charset=utf-8\" http-equiv=\"Content-Type\" " ++
        "name=\"ct\"/>").toList := by
    intro raw
    rw [Markup.writeNode, Markup.writeTag, hattrs]
    decide +kernel
  unfold Markup.writeElement
  rw [if_neg (by decide), Markup.writeNode, Markup.writeNodes, hmeta]
  decide +kernel

/-- The markup that is read again, from that of its two elements. -/
theorem graft_htmlPage {d : Document} {head e : Element} {markup markup' : List Char}
    (hhead : Markup.writeElement (Markup.encodeElement head) = markup)
    (helement : Markup.writeElement (Markup.encodeElement e) = markup') :
    graft (Markup.htmlPage d) head e =
      String.ofList ("<html>".toList ++ markup ++ markup' ++ "</html>".toList) := by
  subst hhead helement
  simp only [String.ofList_append, String.ofList_toList]
  rfl

/-- A head that tells the encoding of its markup tells another one after it was written out, though
    the reader gives back just what was written. So extraction changes the front matter. -/
theorem convertPage_names_encoding :
    let html := "<html><head><meta content=\"text/html; charset=iso-8859-1\" " ++
      "http-equiv=\"Content-Type\" name=\"ct\"><title>T</title></head>" ++
      "<body><main>x</main></body></html>"
    let nodes (content : String) : List Dom.Node := [.element ⟨"meta",
        [("content", .text content), ("http-equiv", .text "Content-Type"),
          ("name", .text "ct")]⟩ [],
      .element ⟨"title", []⟩ [.text "T"]]
    let head : Element := ⟨"html", .ordinary, ⟨"head", []⟩, nodes "text/html; charset=iso-8859-1"⟩
    let main : Element := ⟨"body", .ordinary, ⟨"main", []⟩, [.text "x"]⟩
    let body : Element := ⟨"html", .ordinary, ⟨"body", []⟩, [.element main.tag main.nodes]⟩
    let root : Element := ⟨"[document]", .ordinary, ⟨"html", []⟩,
      [.element head.tag head.nodes, .element body.tag body.nodes]⟩
    let d : Document := ⟨[.element root.tag root.nodes]⟩
    let d' : Document := ⟨[.element ⟨"html", []⟩
      [.element head.tag (nodes "text/html; charset=utf-8"), .element main.tag main.nodes]]⟩
    let page := Markup.htmlPage d
    let o := strictWithMetadata
    let readers := Markup.htmlReaders
    let text (encoding : String) := "---\ntitle: \"T\"\nct: \"text/html; charset=" ++ encoding ++
      "\"\n---\n\n<!-- main -->\nx\n<!-- /main -->"
    (openPage readers o.reader html).result = .ok page ∧ Headed d root head [] [body] ∧
      (∀ x ∈ root.descendants, x.name ≠ "html") ∧
      (MainContent.findMain d).result = .ok ⟨[0, 1, 0], main⟩ ∧
      (openPage readers o.reader (graft page head main)).result = .ok (Markup.htmlPage d') ∧
      ReadBack (Markup.encodeElement head) (Markup.encodeElement main) d' ∧
      (convertPage readers { o with extractMainContent := true } html).markdown.result =
        .ok (text "utf-8") ∧
      (convertPage readers { o with extractMainContent := false } html).markdown.result =
        .ok (text "iso-8859-1") := by
  intro html nodes head main body root d d' page o readers text
  have hopen : (openPage readers o.reader html).result = .ok page :=
    Markup.openPage_asWritten (by decide +kernel)
  have hpage : Headed page.document root head [] [body] := by decide
  have hfound : (MainContent.findMain d).result = .ok ⟨[0, 1, 0], main⟩ := by decide +kernel
  have hhead : Markup.encodeElement head =
      { head with nodes := nodes "text/html; charset=utf-8" } := by decide +kernel
  have hreopen : (openPage readers o.reader (graft page head main)).result =
      .ok (Markup.htmlPage d') := by
    have hwritten := congrArg Markup.writeElement hhead
    -- Only the head has an encoding to be rewritten.
    have hmain : Markup.writeElement (Markup.encodeElement main) = "<main>x</main>".toList := by
      decide +kernel
    rw [graft_htmlPage (hwritten.trans Markup.writeElement_contentType) hmain]
    exact Markup.openPage_asWritten (by decide +kernel)
  have hread : ReadBack (Markup.encodeElement head) (Markup.encodeElement main) d' := by
    rw [hhead]
    exact .beside rfl (Reread.refl _) (Reread.refl _)
  have hcontent := contentElement_graft (o := { o with extractMainContent := true }) hpage nofun rfl
    hfound rfl (by decide) hreopen
  have hon : (convertElement { o with extractMainContent := true } (pageRoot d')).markdown.result =
      .ok (text "utf-8") := by decide +kernel
  exact ⟨hopen, hpage, by decide, hfound, hreopen, hread,
    (convertPage_eq readers { o with extractMainContent := true } html hopen hcontent).1.trans hon,
    by decide +kernel⟩

end PageDistill
