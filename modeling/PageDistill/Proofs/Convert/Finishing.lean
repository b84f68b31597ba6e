import PageDistill.Convert
import PageDistill.Proofs.Markdown.Attachment
import PageDistill.Proofs.Outcomes
import PageDistill.Proofs.Url.Compaction

/-!
# From the Tree to the Outcome

How the outcome of a conversion depends on the lowered tree.

Everything after lowering is a function of the outcome of lowering, so two elements that are
lowered with the same outcome are converted with the same outcome (`convertElement_congr`), and
a page is converted like the element that is chosen in it (`convertPage_eq`).

If metadata is wanted in one conversion and not in the other, and the one lowers to the tree
of the other with a node of metadata before it or after it, then the one writes the front
matter and what the other writes (`convertElement_attach`). The references are the same, since
metadata has no URLs.

## Main definitions

* `Options.withoutMetadata`: The same options without metadata.
* `strictWithMetadata`: Options with metadata.
* `withBlock`: A text with a block in front of it.
* `pageContent`: What is written for a page without its front matter.

## Theorems

* `optionsAfter_eq`, `optionsAfter_congr`: What the options are afterwards.
* `finish_urlMap`: Trees with the same references leave the same table.
* `convertElement_congr`: Elements that are lowered alike are converted alike.
* `convertPage_eq`: A page is converted like the element that is chosen.
* `semanticTree_result`: The tree of an element, or why there is none.
* `convertPage_withBlock`: The front matter is a block in front of the content.
* `convertElement_attach`: Attaching metadata to the tree adds the front matter.
* `convertElement_lineEnds`: Line ends after the tree change nothing.
-/

namespace PageDistill

open Markdown (Node Metadata Attach metadataIn frontMatter)

/-- The same options without metadata. -/
def Options.withoutMetadata (o : Options) : Options := o.withMetadata .off

/-- The choices of a caller who reads pages as they are written and wants their metadata. -/
def strictWithMetadata : Options :=
  { Options.default with reader := .named "html.parser", metadata := .basic }

section

variable {o : Options} {tree tree' : Conversion (List Node × Option ReferenceMap)}

/-- The references that come with a tree take the place of the table. Without any, the options stay
    as they were. -/
theorem optionsAfter_eq : optionsAfter o tree =
    o.withReferences ((tree.result.toOption.bind Prod.snd).getD o.urlMap) := by
  unfold optionsAfter
  cases tree.result with
  | error fault => rfl
  | ok made => rcases made with ⟨_, _ | _⟩ <;> rfl

/-- The options afterwards depend on the outcome of making a tree alone. -/
theorem optionsAfter_congr (h : tree.result = tree'.result) :
    optionsAfter o tree = optionsAfter o tree' := by
  rw [optionsAfter_eq, optionsAfter_eq, h]

/-- Trees with the same references leave the same table. -/
theorem finish_urlMap {o' : Options} (hmap : o.urlMap = o'.urlMap)
    (change : List Node → List Node)
    (h : tree.result = tree'.result.map fun made => (change made.1, made.2)) :
    (finish o tree).urlMap = (finish o' tree').urlMap := by
  change (optionsAfter o tree).urlMap = (optionsAfter o' tree').urlMap
  rw [optionsAfter_eq, optionsAfter_eq, h]
  unfold Options.withReferences
  rw [hmap]
  cases tree'.result <;> rfl

/-- Whatever the tree is, the metadata that is wanted stays the same. -/
theorem optionsAfter_metadata : (optionsAfter o tree).metadata = o.metadata := by
  rw [optionsAfter_eq]
  rfl

/-- So do the hooks on nodes; none is set by a new table. -/
theorem optionsAfter_unhooked (ho : o.WithoutNodeHooks) :
    (optionsAfter o tree).WithoutNodeHooks := by
  rw [optionsAfter_eq]
  exact ho

end

/-- A text with a block in front of it, trimmed at the end. -/
def withBlock (block : List Char) (text : String) : String :=
  String.ofList (Text.trimEnd (block ++ text.toList))

/-- Trees that are made with the same outcome are finished alike. -/
theorem finish_congr (o : Options) {tree tree' : Conversion (List Node × Option ReferenceMap)}
    (h : tree.result = tree'.result) :
    (finish o tree).markdown.result = (finish o tree').markdown.result ∧
      (finish o tree).urlMap = (finish o tree').urlMap := by
  unfold finish Outcome.urlMap
  rw [optionsAfter_congr h]
  exact ⟨Traced.result_bind_congr h fun _ => rfl, rfl⟩

/-- Elements that are lowered alike are converted alike. -/
theorem convertElement_congr (o : Options) {e e' : Dom.Element}
    (h : (lower o 0 e).result = (lower o 0 e').result) :
    (convertElement o e).markdown.result = (convertElement o e').markdown.result ∧
      (convertElement o e).urlMap = (convertElement o e').urlMap :=
  finish_congr o (Traced.result_bind_congr h fun _ => rfl)

/-- The element of a page that can be read is chosen in it. -/
theorem chosenElement_result (readers : Readers) (o : Options) (html : String) {page : Page}
    (hopen : (openPage readers o.reader html).result = .ok page) :
    (chosenElement readers o html).result = (contentElement readers o page).result := by
  unfold chosenElement
  rw [Traced.result_bind, hopen]
  rfl

/-- A page is converted like the element that is chosen in it. -/
theorem convertPage_eq (readers : Readers) (o : Options) (html : String) {page : Page}
    {e : Dom.Element} (hopen : (openPage readers o.reader html).result = .ok page)
    (hcontent : (contentElement readers o page).result = .ok e) :
    (convertPage readers o html).markdown.result = (convertElement o e).markdown.result ∧
      (convertPage readers o html).urlMap = (convertElement o e).urlMap := by
  refine finish_congr o ?_
  unfold pageTree
  rw [Traced.result_bind, chosenElement_result readers o html hopen, hcontent]
  rfl

/-- The tree of an element is the lowered one. If URLs are shortened, it is what a pass leaves of
    that, as long as the pass comes to its end. -/
theorem semanticTree_result (o : Options) (e : Dom.Element) :
    (semanticTree o e).result = (lower o 0 e).result >>= fun nodes =>
      if o.shortenUrls then
        (Url.shortenAll [] nodes).outcome.result.map fun _ =>
          ((Url.shortenAll [] nodes).nodes, some (Url.shortenAll [] nodes).refs)
      else .ok (nodes, none) := by
  unfold semanticTree
  rw [Traced.result_bind]
  cases (lower o 0 e).result with
  | error fault => rfl
  | ok nodes =>
      change (if o.shortenUrls = true then _ else _ : Conversion _).result = if _ then _ else _
      by_cases hshorten : o.shortenUrls = true
      · rw [if_pos hshorten, if_pos hshorten, Traced.result_bind]
        cases (Url.shortenAll [] nodes).outcome.result <;> rfl
      · rw [if_neg hshorten, if_neg hshorten]
        rfl

/-- The tree of an element that is lowered to a changed tree of another, if the change has no
    part in shortening. -/
theorem semanticTree_change (o o' : Options) (hwanted : o'.shortenUrls = o.shortenUrls)
    {change : List Node → List Node} (hchange : ∀ state nodes, Url.shorten state (change nodes) =
      (change (Url.shorten state nodes).1, (Url.shorten state nodes).2)) {e e' : Dom.Element}
    (hlower : (lower o 0 e).result = (lower o' 0 e').result.map change) :
    (semanticTree o e).result =
      (semanticTree o' e').result.map fun tree => (change tree.1, tree.2) := by
  rw [semanticTree_result, semanticTree_result, hlower, hwanted]
  cases (lower o' 0 e').result with
  | error fault => rfl
  | ok nodes =>
      change (if o.shortenUrls = true then _ else _) =
        Except.map _ (if o.shortenUrls = true then _ else _)
      by_cases hshorten : o.shortenUrls = true
      · rw [if_pos hshorten, if_pos hshorten]
        -- The pass goes through both trees with the same states, so it ends alike.
        simp only [Url.shortenAll_result, Url.shortenAll_nodes, Url.shortenAll_refs, hchange]
        cases (Url.shorten ⟨[], none⟩ nodes).2.fault <;> rfl
      · rw [if_neg hshorten, if_neg hshorten]
        rfl

/-- The tree of an element has the metadata of its lowered tree. -/
theorem semanticTree_ok {o : Options} {e : Dom.Element}
    {tree : List Node × Option ReferenceMap} (h : (semanticTree o e).result = .ok tree) :
    ∃ nodes, (lower o 0 e).result = .ok nodes ∧ metadataIn tree.1 = metadataIn nodes := by
  rw [semanticTree_result] at h
  cases hlower : (lower o 0 e).result with
  | error fault =>
      rw [hlower] at h
      exact nomatch h
  | ok nodes =>
      refine ⟨nodes, rfl, ?_⟩
      rw [hlower] at h
      change (if o.shortenUrls = true then _ else _) = _ at h
      by_cases hwanted : o.shortenUrls = true
      · rw [if_pos hwanted] at h
        cases houtcome : (Url.shortenAll [] nodes).outcome.result with
        | error fault =>
            rw [houtcome] at h
            exact nomatch h
        | ok _ =>
            rw [houtcome] at h
            rw [← Except.ok.inj h, Url.shortenAll_nodes, Markdown.metadataIn_shorten]
      · rw [if_neg hwanted] at h
        rw [← Except.ok.inj h]

/-- What is written for a page without its front matter. -/
def pageContent (readers : Readers) (o : Options) (html : String) : Conversion String := do
  let (nodes, _) ← pageTree readers o html
  let after := optionsAfter o (pageTree readers o html)
  return String.ofList (← Traced.ofExcept (Markdown.renderContent after 0 nodes))

/-- If every tree that may be made of a page has the same front matter, the page is converted to
    this block and its content. -/
theorem convertPage_withBlock (readers : Readers) (o : Options) (html : String) {page : Page}
    (hopen : (openPage readers o.reader html).result = .ok page) (block : List Char)
    (hblock : ∀ e nodes, (contentElement readers o page).result = .ok e →
      (lower o 0 e).result = .ok nodes → frontMatter o.metadata nodes = block) :
    (convertPage readers o html).markdown.result =
      (pageContent readers o html).result.map (withBlock block) := by
  change (finish o (pageTree readers o html)).markdown.result = _
  unfold finish pageContent
  simp only [Traced.result_bind]
  -- The front matter does not depend on the table, so it is the same afterwards.
  have hafter : (optionsAfter o (pageTree readers o html)).metadata = o.metadata :=
    optionsAfter_metadata
  generalize optionsAfter o (pageTree readers o html) = after at hafter ⊢
  unfold pageTree
  simp only [Traced.result_bind, chosenElement_result readers o html hopen]
  cases hcontent : (contentElement readers o page).result with
  | error fault => rfl
  | ok e =>
      change (semanticTree o e).result >>= _ = Except.map _ ((semanticTree o e).result >>= _)
      cases htree : (semanticTree o e).result with
      | error fault => rfl
      | ok tree =>
          rcases semanticTree_ok htree with ⟨nodes, hnodes, hmetadata⟩
          have hsame : frontMatter after.metadata tree.1 = block := by
            rw [hafter, ← hblock e nodes hcontent hnodes]
            exact Markdown.frontMatter_congr o.metadata (by
              rw [Markdown.metadataOf_eq, Markdown.metadataOf_eq, hmetadata])
          change (Markdown.renderPage after 0 tree.1 >>= fun a =>
              Except.ok (String.ofList a)) =
            Except.map _ (Markdown.renderContent after 0 tree.1 >>= fun a =>
              Except.ok (String.ofList a))
          unfold Markdown.renderPage
          cases Markdown.renderContent after 0 tree.1 with
          | error fault => rfl
          | ok content =>
              rw [hsame]
              change Except.ok _ = Except.ok _
              rw [withBlock, String.toList_ofList]

/-- If one conversion lowers to the tree of another with metadata attached, it writes the front
    matter and then what the other writes, and leaves the same references. -/
theorem convertElement_attach (o : Options) (ho : o.WithoutNodeHooks) {m : Metadata}
    {attach : List Node → List Node} (hattach : Attach m attach) {e e' : Dom.Element}
    (hlower : (lower o 0 e).result = (lower o.withoutMetadata 0 e').result.map attach)
    (hnone : ∀ nodes, (lower o.withoutMetadata 0 e').result = .ok nodes → metadataIn nodes = []) :
    (convertElement o e).markdown.result =
        (convertElement o.withoutMetadata e').markdown.result.map
          (withBlock (frontMatter o.metadata [.metadata m])) ∧
      (convertElement o e).urlMap = (convertElement o.withoutMetadata e').urlMap := by
  have htree := semanticTree_change o o.withoutMetadata rfl
    (fun state nodes => hattach.shorten_eq state nodes) hlower
  refine ⟨?_, finish_urlMap rfl attach htree⟩
  unfold convertElement finish
  simp only [Traced.result_bind, htree]
  cases htree' : (semanticTree o.withoutMetadata e').result with
  | error fault => rfl
  | ok tree =>
      rcases semanticTree_ok htree' with ⟨nodes, hnodes, hmetadata⟩
      change (Markdown.renderPage (optionsAfter o (semanticTree o e)) 0 (attach tree.1) >>=
          fun a => Except.ok (String.ofList a)) =
        Except.map _ (Markdown.renderPage (optionsAfter o.withoutMetadata
          (semanticTree o.withoutMetadata e')) 0 tree.1 >>= fun a => Except.ok (String.ofList a))
      -- What was attached shows in the front matter and nowhere else.
      rw [hattach.renderPage_eq (optionsAfter_unhooked ho) 0 tree.1
          (hmetadata.trans (hnone nodes hnodes)),
        Markdown.renderPage_unhooked (optionsAfter_unhooked (o := o.withoutMetadata) ho),
        optionsAfter_metadata, optionsAfter_metadata]
      change Except.ok _ = Except.ok _
      unfold withBlock
      rw [String.toList_ofList]
      rw [Text.trimEnd_append_trimEnd]
      rfl

/-- Line ends after the tree of a conversion without metadata change nothing: they are trimmed
    with the end of the text. -/
theorem convertElement_lineEnds (o : Options) (ho : o.WithoutNodeHooks)
    (hmetadata : o.metadata.wanted = false) {e e' : Dom.Element}
    (hlower : (lower o 0 e).result = (lower o 0 e').result.map fun nodes =>
      nodes ++ [.text "\n\n"]) :
    (convertElement o e).markdown.result = (convertElement o e').markdown.result ∧
      (convertElement o e).urlMap = (convertElement o e').urlMap := by
  have htree := semanticTree_change o o rfl
    (fun state nodes => Markdown.shorten_append state nodes _) hlower
  refine ⟨?_, finish_urlMap rfl (· ++ [.text "\n\n"]) htree⟩
  unfold convertElement finish
  simp only [Traced.result_bind, htree]
  cases (semanticTree o e').result with
  | error fault => rfl
  | ok tree =>
      change (Markdown.renderPage (optionsAfter o (semanticTree o e)) 0
          (tree.1 ++ [.text "\n\n"]) >>= fun a => _) =
        (Markdown.renderPage (optionsAfter o (semanticTree o e')) 0 tree.1 >>= fun a => _)
      -- The line ends are the last that is written, where they are trimmed.
      rw [Markdown.renderPage_unhooked (optionsAfter_unhooked ho),
        Markdown.renderPage_unhooked (optionsAfter_unhooked ho), optionsAfter_metadata,
        optionsAfter_metadata, Markdown.frontMatter_unwanted hmetadata,
        Markdown.frontMatter_unwanted hmetadata, Markdown.layOut_lineEnds, ← List.append_assoc,
        Text.trimEnd_append_of_blank _ ['\n', '\n'] (by decide)]

end PageDistill
