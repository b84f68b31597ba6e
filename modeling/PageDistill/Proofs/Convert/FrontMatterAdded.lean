import PageDistill.Markup.Html
import PageDistill.Proofs.Convert.Finishing
import PageDistill.Proofs.Convert.PageShape
import PageDistill.Proofs.Dom.Equality
import PageDistill.Proofs.Lower.MetadataFree

/-!
# Metadata Without Extraction

Without extraction, asking for metadata adds the front matter to a page and nothing else.

The two conversions start from different elements: from the body, and from the `html` element
when metadata is wanted, since the body does not hold the head. The `html` element of a framed
page has two children that count. The head is lowered to its metadata. The body has no rule
of its own, so its nodes are those of its children, one level further down. There the two
runs agree, since the body has no head in it and the levels are enough for both.

So the one tree is the other with metadata attached, and everything that follows only adds
the front matter.

## Theorems

* `lower_framed`: The root is lowered to the tree of the body with metadata attached.
* `convertPage_framed`: The conversion adds the front matter.
-/

namespace PageDistill

open Dom (Element Document)
open Markdown (Node Metadata Attach metadataIn frontMatter)

/-- Blank text and strings that are no text leave nothing, so only the children count. -/
theorem lowerLevels_of_blank {o : Options} (ho : o.WithoutElementHooks) (levels : Nat)
    (indent : Int) (e : Element)
    (hblank : ∀ content, .text content ∈ e.nodes → Text.isAllBlank content.toList = true) :
    (lowerLevels o (levels + 1) indent e).result =
      (Traced.collect (lowerElement o (lowerLevels o levels) indent) e.children).result := by
  unfold lowerLevels
  refine Traced.result_collect_filterMap (fun node hmem hnone => ?_) fun node hmem c hc => ?_
  · unfold lowerChild
    rw [ho.1]
    cases node with
    | text content =>
        -- What is no element leaves nothing, since a text here is blank.
        have hempty := (Text.trim_eq_nil_iff content.toList).mpr (hblank content hmem)
        change (lowerText o content).result = _
        unfold lowerText
        simp only [hempty, List.isEmpty_nil, if_true]
        rfl
    | special kind content => rfl
    | element tag nodes => exact absurd hnone (by simp)
  · unfold lowerChild
    rw [ho.1]
    cases node with
    | text content => exact absurd hc (by simp)
    | special kind content => exact absurd hc (by simp)
    | element tag nodes =>
        rw [← Option.some.inj hc]
        rfl

section

variable {o : Options} {d : Document} {root head body : Element}
variable (ho : o.WithoutElementHooks) (hpage : Framed d root head body)

include ho hpage

/-- When metadata is wanted, the root is lowered to the tree of the body with the metadata of
    the head attached. -/
theorem lower_framed (hwanted : o.metadata.wanted = true)
    (hdepth : o.maxDepth.Allows (Dom.heightOf body.nodes + 1)) {m : Metadata}
    (hm : (extractMetadata o.metadata.isExtended head).result = .ok m) :
    ∃ attach, Attach m attach ∧
      (lower o 0 root).result = (lower o.withoutMetadata 0 body).result.map attach := by
  have hmem : body ∈ root.children := (hpage.mem_children_iff body).mpr (by simp)
  have hheight := Element.heightOf_lt_of_mem_children hmem
  have hlevels := lt_levelsWithin (e := root) hdepth (by omega)
  have hlevels' := heightOf_lt_levelsWithin o.maxDepth body (hdepth.mono (Nat.le_succ _))
  rcases Nat.exists_eq_add_of_lt hlevels with ⟨more, hmore⟩
  -- Below the body the two runs agree.
  have hbody : (lowerLevels o (Dom.heightOf body.nodes + 1 + more) (0 + 1) body).result =
      (lower o.withoutMetadata 0 body).result := by
    have halike : o.LowerAlike o.withoutMetadata := ⟨ho, ho, rfl, rfl⟩
    have hagree : AgreeBelow o o.withoutMetadata false (Dom.heightOf body.nodes + 1 + more)
        (levelsWithin o.maxDepth body) (lowerLevels o _) (lowerLevels o.withoutMetadata _) :=
      agreeBelow_lowerLevels halike _ _
    rw [lower_of_allows (o := o.withoutMetadata) hdepth]
    refine hagree _ _ [] body body (Twins.refl [] body (by omega) hlevels' fun _ => ?_)
    exact hpage.one_head body (by simp)
  have hcategory : Dom.categoryOf o.metadata.wanted body.name = .unhandled := by
    rw [hwanted, hpage.body_name]
    decide
  have hbodyResult := (lowerElement_of_unhandled 0 ho.2 hcategory).trans hbody
  have hheadResult :
      (lowerElement o (lowerLevels o (Dom.heightOf body.nodes + 1 + more)) 0 head).result =
        .ok [.metadata m] := by
    rw [lowerElement_head 0 hwanted hpage.head_name, hm]
    rfl
  rw [lower_of_allows hdepth, hmore, lowerLevels_of_blank ho _ _ _ hpage.blank]
  rcases hpage.parts with hparts | hparts
  · refine ⟨_, .before, ?_⟩
    simp only [hparts, Traced.collect, Traced.result_bind, hheadResult, hbodyResult]
    cases (lower o.withoutMetadata 0 body).result with
    | error fault => rfl
    | ok nodes =>
        exact congrArg (fun tree => Except.ok (Node.metadata m :: tree)) (List.append_nil _)
  · refine ⟨_, .after, ?_⟩
    simp only [hparts, Traced.collect, Traced.result_bind, hheadResult, hbodyResult]
    cases (lower o.withoutMetadata 0 body).result with
    | error fault => rfl
    | ok nodes => rfl

end

/-- Without extraction, asking for metadata adds the front matter and nothing else: the text is
    the block of the head's metadata and the text without metadata, trimmed at the end, and the
    references are the same. -/
theorem convertPage_framed (readers : Readers) (o : Options) (html : String)
    (ho : o.WithoutElementHooks) (hnodes : o.WithoutNodeHooks)
    (hextract : o.extractMainContent = false) (hwanted : o.metadata.wanted = true) {page : Page}
    {root head body : Element} (hopen : (openPage readers o.reader html).result = .ok page)
    (hpage : Framed page.document root head body)
    (hdepth : o.maxDepth.Allows (Dom.heightOf body.nodes + 1)) {m : Metadata}
    (hm : (extractMetadata o.metadata.isExtended head).result = .ok m) :
    (convertPage readers o html).markdown.result =
        (convertPage readers o.withoutMetadata html).markdown.result.map
          (withBlock (frontMatter o.metadata [.metadata m])) ∧
      (convertPage readers o html).urlMap =
        (convertPage readers o.withoutMetadata html).urlMap := by
  rcases hpage.headed with ⟨front, back, hheaded⟩
  -- With metadata the root is converted, since the head has contents. Without it the body is.
  have hroot : (contentElement readers o page).result = .ok root := by
    unfold contentElement
    simp only [hwanted, if_true, hextract, Bool.false_eq_true, if_false,
      hheaded.filledHead?_eq hpage.filled, hheaded.pageRoot_eq]
    rfl
  have hbody : (contentElement readers o.withoutMetadata page).result = .ok body := by
    unfold contentElement
    have hsame : o.withoutMetadata.extractMainContent = false := hextract
    have hoff : o.withoutMetadata.metadata.wanted = false := rfl
    simp only [hoff, Bool.false_eq_true, if_false, hsame, hpage.firstElement?_body]
    rfl
  rcases lower_framed ho hpage hwanted hdepth hm with ⟨attach, hattach, hlower⟩
  -- Nothing below the body tells metadata, so what is attached is all there is.
  have hfree : ∀ nodes, (lower o.withoutMetadata 0 body).result = .ok nodes →
      metadataIn nodes = [] := by
    intro nodes hresult
    rw [lower_of_allows (o := o.withoutMetadata) hdepth] at hresult
    exact (lowerLevels_metadataFree (o := o.withoutMetadata) ho _ 0 body nofun).of_ok hresult
  have hon := convertPage_eq readers o html hopen hroot
  have hoff := convertPage_eq readers o.withoutMetadata html hopen hbody
  rw [hon.1, hon.2, hoff.1, hoff.2]
  exact convertElement_attach o hnodes hattach hlower hfree

/-- A page with blank text and a comment beside a head and a body, which has a title, a heading and
    a list with a link. -/
theorem convertPage_framed_listed :
    let html := "<html>\n<head><title>A \"b\"</title></head><!-- c --><body><h1>One</h1>" ++
      "<ul><li><a href=\"https://a.org/b/c.html\">two</a></li></ul></body></html>"
    let plain (name : String) (nodes : List Dom.Node) : Dom.Node := .element ⟨name, []⟩ nodes
    let head : Element := ⟨"html", .ordinary, ⟨"head", []⟩, [plain "title" [.text "A \"b\""]]⟩
    let body : Element := ⟨"html", .ordinary, ⟨"body", []⟩,
      [plain "h1" [.text "One"], plain "ul" [plain "li"
        [.element ⟨"a", [("href", .text "https://a.org/b/c.html")]⟩ [.text "two"]]]]⟩
    let root : Element := ⟨"[document]", .ordinary, ⟨"html", []⟩,
      [.text "\n", .element head.tag head.nodes, .special .comment " c ",
        .element body.tag body.nodes]⟩
    let d : Document := ⟨[.element root.tag root.nodes]⟩
    let o := { strictWithMetadata with shortenUrls := true }
    let readers := Markup.htmlReaders
    let m := headEntries false head
    (openPage readers o.reader html).result = .ok (Markup.htmlPage d) ∧ Framed d root head body ∧
      o.maxDepth.Allows (Dom.heightOf body.nodes + 1) ∧
      (extractMetadata o.metadata.isExtended head).result = .ok m ∧
      (convertPage readers o html).markdown.result =
        (convertPage readers o.withoutMetadata html).markdown.result.map
          (withBlock (frontMatter o.metadata [.metadata m])) ∧
      (convertPage readers o html).urlMap = (convertPage readers o.withoutMetadata html).urlMap ∧
      (convertPage readers o html).markdown.result =
        .ok "---\ntitle: \"A \\\"b\\\"\"\n---\n\n# One\n\n- [two](ref0://c.html)" ∧
      (convertPage readers o html).urlMap = [("https://a.org/b", "ref0")] := by
  intro html plain head body root d o readers m
  have hopen : (openPage readers o.reader html).result = .ok (Markup.htmlPage d) :=
    Markup.openPage_asWritten (by decide +kernel)
  have hpage : Framed d root head body :=
    { single := by decide
      root_name := rfl
      parts := Or.inl (by decide)
      blank := fun content hmem => by
        have hcontent : content = "\n" := by simpa [root, head, body] using hmem
        rw [hcontent]
        decide
      head_name := rfl
      filled := nofun
      body_name := rfl
      one_head := by decide
      one_body := by decide }
  have hdepth : o.maxDepth.Allows (Dom.heightOf body.nodes + 1) := by decide
  have hm : (extractMetadata o.metadata.isExtended head).result = .ok m := rfl
  have hall := convertPage_framed readers o html ⟨rfl, rfl⟩ ⟨rfl, rfl⟩ rfl rfl hopen hpage hdepth hm
  exact ⟨hopen, hpage, hdepth, hm, hall.1, hall.2, by decide +kernel⟩

/-- A body inside the head is found before the other one, but only without metadata. So the two
    conversions of such a page are of different contents. -/
theorem convertPage_body_in_head :
    let html := "<html><head><title>T</title><body>x</body></head><body>y</body></html>"
    let head : Element := ⟨"html", .ordinary, ⟨"head", []⟩,
      [.element ⟨"title", []⟩ [.text "T"], .element ⟨"body", []⟩ [.text "x"]]⟩
    let body : Element := ⟨"html", .ordinary, ⟨"body", []⟩, [.text "y"]⟩
    let o := strictWithMetadata
    let block := frontMatter o.metadata [.metadata (headEntries false head)]
    let d : Document :=
      ⟨[.element ⟨"html", []⟩ [.element head.tag head.nodes, .element body.tag body.nodes]]⟩
    let readers := Markup.htmlReaders
    (openPage readers o.reader html).result = .ok (Markup.htmlPage d) ∧
      (∀ x ∈ head.descendants ++ body.descendants, Text.foldName x.name ≠ "head") ∧
      o.maxDepth.Allows (Dom.heightOf body.nodes + 1) ∧
      (extractMetadata o.metadata.isExtended head).result = .ok (headEntries false head) ∧
      (convertPage readers o html).markdown.result = .ok (withBlock block "y") ∧
      (convertPage readers o.withoutMetadata html).markdown.result = .ok "x" ∧
      withBlock block "y" ≠ withBlock block "x" := by
  intro html head body o block d readers
  exact ⟨Markup.openPage_asWritten (by decide +kernel), by decide, by decide, rfl,
    by decide +kernel⟩

end PageDistill
