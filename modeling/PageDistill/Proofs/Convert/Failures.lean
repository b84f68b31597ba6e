import PageDistill.Markup.Html
import PageDistill.Proofs.Convert.Finishing
import PageDistill.Proofs.Convert.Nesting
import PageDistill.Proofs.Lower.Addresses
import PageDistill.Proofs.MainContent.Found
import PageDistill.Proofs.Markup.WordLists
import PageDistill.Proofs.Options.Validated

/-!
# When Conversions Fail

What can make a conversion fail, when the options were checked and no hooks are set.

A conversion goes through four stages. Its reader may not be there, and one that is there may refuse
a text, the page itself or the page that is put together from the head and the main content
(`AskedToRead`). Choosing an element fails for no other reason (`contentElement_ends`). Without
hooks, rendering writes every tree. So a conversion of what was read fails where its tree cannot be
made, either as the element is lowered or as URLs are shortened, and each way to fail names an
element that is at fault (`PageFault`).

These ways are few. Lowering fails at integers of too many digits, in structured data or in the
number of a column, and the pass over URLs at a web URL whose authority cannot be read. A list in
the place of a URL ends the pass as well, but a page has one only if its reader puts it there:
readers make lists of the attributes that hold words, and the address of a film is none of them.

What is left is room. A machine that bears some nesting runs out of it only where a page is nested
deeper, and without structured data no page is nested deeper than the limit allows
(`nesting_le`).

## Main definitions

* `AskedToRead`: The texts that a conversion has read.
* `ReadsWordLists`: A reader that makes lists only of attributes that hold words.
* `PageFault`: What in a page makes its conversion fail.
* `MachineFault`: What makes a conversion fail on a machine.

## Theorems

* `contentElement_ends`: Choosing an element fails only where a text is refused.
* `semanticTree_ok_iff`: When the tree of an element can be made.
* `semanticTree_fault`: What is at fault otherwise.
* `convertPageOn_error`: Why a conversion fails.
* `convertPage_faults`: When a conversion fails, and why.
* `convertPage_bad_address`: A page that cannot be converted.
-/

namespace PageDistill

open Markdown (Node)

/-- The texts that a conversion has read: that of the page, and the markup of its head and its main
    content if the one leaves the other behind. -/
inductive AskedToRead (o : Options) (read : Reader) (html : String) : String → Prop where
  | page : AskedToRead o read html html
  | graft (page : Page) (head : Dom.Element) (found : MainContent.Placed)
      (hread : read html = .ok page) (hextract : o.extractMainContent = true)
      (hwanted : o.metadata.wanted = true) (hhead : filledHead? page.document = some head)
      (hfound : (MainContent.findMain page.document).result = .ok found)
      (hleft : leavesHead found.element = true) :
      AskedToRead o read html (graft page head found.element)

/-- A reader makes lists only of the attributes that hold words. -/
def ReadsWordLists (read : Reader) : Prop :=
  ∀ html page, read html = .ok page →
    ∀ d ∈ page.document.root.descendants, Markup.WordLists d.tag

/-- What in some elements of a page makes its conversion fail. -/
inductive PageFault (o : Options) (elements : List Dom.Element) : ConversionError → Prop where
  /-- The address of an element ends the pass over URLs. -/
  | address (d : Dom.Element) (source : Dom.AttrValue) (fault : Url.PassFault)
      (hmem : d ∈ elements) (haddress : AddressOf o d source) (hshorten : o.shortenUrls = true)
      (hfault : Url.Unreadable source fault) : PageFault o elements fault.error
  /-- A row has a column whose number cannot be written. -/
  | columns (row : Dom.Element) (hmem : row ∈ elements) (hname : row.name = "tr")
      (htrack : o.trackTableColumns = true) (hwide : columnBound ≤ columnsOf (cellElements row)) :
      PageFault o elements (.tooManyDigits none)
  /-- A block of structured data has an integer that cannot be read. -/
  | number (head block : Dom.Element) (count : Nat) (hmem : head ∈ elements)
      (hname : Text.foldName head.name = "head") (hmode : o.metadata.isExtended = true)
      (hblock : block ∈ head.named "script")
      (htype : block.tag.hasText "type" structuredDataType = true)
      (hread : Json.read (blockSource block) = .error (.tooManyDigits count)) :
      PageFault o elements (.tooManyDigits (some count))

/-- What makes the conversion of a text fail on a machine. -/
inductive MachineFault (machine : Machine) (o : Options) (html : String) :
    ConversionError → Prop where
  /-- The reader is not there. -/
  | reader (fault : ReaderFault) (h : o.reader.find machine.readers = .error fault) :
      MachineFault machine o html (.reader fault)
  /-- The reader refuses a text that it is asked to read. -/
  | rejected (read : Reader) (text reason : String)
      (hread : o.reader.find machine.readers = .ok read) (hasked : AskedToRead o read html text)
      (h : read text = .error reason) : MachineFault machine o html (.rejected reason)
  /-- An element is at fault below the one that is converted. -/
  | page (e : Dom.Element) (error : ConversionError)
      (hchosen : (chosenElement machine.readers o html).result = .ok e)
      (h : PageFault o e.descendants error) : MachineFault machine o html error
  /-- There is no room for the element that is converted. -/
  | nested (e : Dom.Element) (hchosen : (chosenElement machine.readers o html).result = .ok e)
      (h : machine.reach o e ≠ .text) : MachineFault machine o html .tooNested

section

variable {o : Options} {readers : Readers} {read : Reader}
  (hread : o.reader.find readers = .ok read)

include hread

theorem openPage_of_find (html : String) :
    (openPage readers o.reader html).result = (read html).mapError .rejected := by
  unfold openPage
  cases hpage : read html with
  | error reason =>
      simp only [hread, hpage]
      rfl
  | ok page =>
      simp only [hread, hpage]
      rfl

theorem openPage_ok {html : String} {page : Page} (h : read html = .ok page) :
    (openPage readers o.reader html).result = .ok page := by
  rw [openPage_of_find hread, h]
  rfl

omit hread

theorem firstElement?_mem {page : Dom.Document} {name : String} {e : Dom.Element}
    (h : firstElement? page name = some e) : e ∈ page.root.descendants :=
  List.mem_of_find?_eq_some h

theorem pageRoot_mem (page : Dom.Document) :
    pageRoot page = page.root ∨ pageRoot page ∈ page.root.descendants := by
  unfold pageRoot
  cases hhtml : firstElement? page "html" with
  | none => exact Or.inl rfl
  | some html => exact Or.inr (firstElement?_mem hhtml)

/-- An element of a page that was read out of a text which a conversion asks for. -/
def FromAsked (o : Options) (read : Reader) (html : String) (e : Dom.Element) : Prop :=
  ∃ text page, AskedToRead o read html text ∧ read text = .ok page ∧
    (e = page.document.root ∨ e ∈ page.document.root.descendants)

/-- A text that a conversion asks for is refused. -/
def Refused (o : Options) (read : Reader) (html : String) (error : ConversionError) : Prop :=
  ∃ text reason, AskedToRead o read html text ∧ read text = .error reason ∧
    error = .rejected reason

include hread

/-- What is chosen is an element of a page that was read, and choosing it fails only where a text is
    refused. -/
theorem contentElement_ends {html : String} {page : Page} (hpage : read html = .ok page) :
    (contentElement readers o page).Ends (FromAsked o read html) (Refused o read html) := by
  have hroot : FromAsked o read html (pageRoot page.document) :=
    ⟨html, page, .page, hpage, pageRoot_mem page.document⟩
  unfold contentElement
  simp only
  generalize hhead? : (if o.metadata.wanted = true then filledHead? page.document else none) = head?
  by_cases hextract : o.extractMainContent = true
  · simp only [if_pos hextract]
    have hfound := (MainContent.findMain_found page.document).and_result
    refine (hfound.mono_bad fun _ h => absurd h id).bind fun found hfound => ?_
    have hyields : FromAsked o read html found.element :=
      ⟨html, page, .page, hpage, hfound.1.symm.imp_left And.left⟩
    cases head? with
    | none => exact Traced.Ends.pure hyields
    | some head =>
        simp only
        by_cases hleft : leavesHead found.element = true
        · rw [if_pos hleft]
          have hwanted : o.metadata.wanted = true ∧ filledHead? page.document = some head := by
            split at hhead?
            · exact ⟨‹_›, hhead?⟩
            · exact nomatch hhead?
          have hasked : AskedToRead o read html (graft page head found.element) :=
            .graft page head found hpage hextract hwanted.1 hwanted.2 hfound.2 hleft
          -- The element that is chosen then is that of the page which is read again.
          have hopened : (openPage readers o.reader (graft page head found.element)).Ends
              (fun grafted => read (graft page head found.element) = .ok grafted)
              (Refused o read html) := by
            unfold Traced.Ends
            rw [openPage_of_find hread]
            cases hgraft : read (graft page head found.element) with
            | ok grafted => rfl
            | error reason => exact ⟨_, reason, hasked, hgraft, rfl⟩
          refine hopened.bind fun grafted hgrafted => Traced.Ends.pure ?_
          exact ⟨_, grafted, hasked, hgrafted, pageRoot_mem grafted.document⟩
        · rw [if_neg hleft]
          exact Traced.Ends.pure hyields
  · simp only [if_neg hextract]
    cases head? with
    | some head => exact Traced.Ends.pure hroot
    | none =>
        refine Traced.Ends.pure ?_
        cases hbody : firstElement? page.document "body" with
        | none => exact hroot
        | some body => exact ⟨html, page, .page, hpage, Or.inr (firstElement?_mem hbody)⟩

/-- The same for the text of a page. -/
theorem chosenElement_ends (html : String) :
    (chosenElement readers o html).Ends (FromAsked o read html) (Refused o read html) := by
  unfold Traced.Ends
  cases hpage : read html with
  | ok page =>
      rw [chosenElement_result readers o html (openPage_ok hread hpage)]
      exact contentElement_ends hread hpage
  | error reason =>
      unfold chosenElement
      rw [Traced.result_bind, openPage_of_find hread, hpage]
      exact ⟨html, reason, .page, hpage, rfl⟩

end

section

variable {o : Options}

/-- The tree of an element can be made if the element can be lowered and every address in the
    tree can be read, as far as addresses are shortened. -/
theorem semanticTree_ok_iff (o : Options) (e : Dom.Element) :
    (∃ tree, (semanticTree o e).result = .ok tree) ↔
      ∃ nodes, (lower o 0 e).result = .ok nodes ∧
        (o.shortenUrls = true → ∀ source ∈ Url.sources nodes, Url.isReadable source = true) := by
  rw [semanticTree_result]
  cases (lower o 0 e).result with
  | error fault => exact ⟨fun ⟨_, h⟩ => (nomatch h), fun ⟨_, h, _⟩ => (nomatch h)⟩
  | ok nodes =>
      change (∃ tree, (if o.shortenUrls = true then _ else _) = Except.ok tree) ↔ _
      by_cases hshorten : o.shortenUrls = true
      · rw [if_pos hshorten]
        -- The tree is there exactly if the pass comes to its end.
        have hiff := Url.shortenAll_ok_iff [] nodes
        constructor
        · rintro ⟨tree, htree⟩
          refine ⟨nodes, rfl, fun _ => hiff.mp ?_⟩
          cases houtcome : (Url.shortenAll [] nodes).outcome.result with
          | ok _ => rfl
          | error fault =>
              rw [houtcome] at htree
              exact nomatch htree
        · rintro ⟨_, heq, hreadable⟩
          rw [← Except.ok.inj heq] at hreadable
          rw [hiff.mpr (hreadable hshorten)]
          exact ⟨_, rfl⟩
      · rw [if_neg hshorten]
        exact ⟨fun _ => ⟨nodes, rfl, fun h => absurd h hshorten⟩, fun _ => ⟨_, rfl⟩⟩

/-- An address is a text, or the attribute of a film as it is. -/
theorem AddressOf.text_or_filled {d : Dom.Element} {source : Dom.AttrValue}
    (h : AddressOf o d source) :
    (∃ url, source = .text url) ∨ d.tag.filled? "src" = some source := by
  cases h with
  | link => exact Or.inl ⟨_, rfl⟩
  | image => exact Or.inl ⟨_, rfl⟩
  | video =>
      unfold videoAddress
      cases hsrc : d.tag.filled? "src" with
      | none => exact Or.inl ⟨"", rfl⟩
      | some src => exact Or.inr rfl

/-- No list stands where an address should be, if lists are made only of words. -/
theorem PageFault.ne_urlIsList {elements : List Dom.Element} {error : ConversionError}
    (h : PageFault o elements error) (hlists : ∀ d ∈ elements, Markup.WordLists d.tag) :
    error ≠ .urlIsList := by
  rintro rfl
  generalize herror : ConversionError.urlIsList = error at h
  cases h with
  | address d source fault hmem haddress _ hfault =>
      cases hfault with
      | list items =>
          rcases haddress.text_or_filled with ⟨_, heq⟩ | hfilled
          · exact nomatch heq
          · exact (hlists d hmem).filled?_src_ne_list items hfilled
      | _ => exact nomatch herror
  | _ => exact nomatch herror

/-- When the tree of an element cannot be made, an element below is at fault. -/
theorem semanticTree_fault (ho : o.WithoutElementHooks) (hvalid : o.Validated) (e : Dom.Element) :
    (semanticTree o e).Ends (fun _ => True) (PageFault o e.descendants) := by
  unfold semanticTree
  refine (lower_sources ho 0 e |>.mono_bad ?_).bind fun nodes hsources => ?_
  · intro error hlower
    cases hlower with
    | domain kind hdomain => exact absurd hdomain (hvalid.domain kind)
    | limit kind hlimit =>
        rcases hvalid.limit with ⟨n, _, hwhole⟩
        rw [hwhole] at hlimit
        exact nomatch hlimit
    | columns row hrow hname htrack hwide => exact .columns row hrow hname htrack hwide
    | number head block count hhead hname hmode hblock htype hread =>
        exact .number head block count hhead hname hmode hblock htype hread
  · by_cases hshorten : o.shortenUrls = true
    · rw [if_pos hshorten]
      -- A URL that ends the pass is one of the tree, and so comes from an element below.
      have hpass : (Url.shortenAll [] nodes).outcome.Ends (fun _ => True)
          (PageFault o e.descendants) := by
        unfold Traced.Ends
        cases houtcome : (Url.shortenAll [] nodes).outcome.result with
        | ok _ => exact True.intro
        | error error =>
            rcases Url.shortenAll_error [] nodes error houtcome with
              ⟨source, hsource, fault, hfault, rfl⟩
            rcases hsources source hsource with ⟨d, hd, haddress⟩
            exact .address d source fault hd haddress hshorten hfault
      exact hpass.bind fun _ _ => (Traced.Ends.debug _).bind fun _ _ => Traced.Ends.pure True.intro
    · rw [if_neg hshorten]
      exact Traced.Ends.pure True.intro

/-- Without hooks on nodes, every tree is written. -/
theorem finish_unhooked (ho : o.WithoutNodeHooks)
    (tree : Conversion (List Node × Option ReferenceMap)) :
    (finish o tree).markdown.result = tree.result.map fun made =>
      String.ofList (Text.trimEnd
        (Markdown.frontMatter o.metadata made.1 ++ Markdown.layOut 0 [] made.1)) := by
  unfold finish
  simp only [Traced.result_bind]
  cases tree.result with
  | error fault => rfl
  | ok made =>
      change (Markdown.renderPage (optionsAfter o tree) 0 made.1 >>= fun text =>
        Except.ok (String.ofList text)) = _
      rw [Markdown.renderPage_unhooked (optionsAfter_unhooked ho), optionsAfter_metadata]
      rfl

/-- So an element is converted as soon as its tree can be made. -/
theorem convertElement_unhooked (ho : o.WithoutNodeHooks) (e : Dom.Element) :
    (convertElement o e).markdown.result = (semanticTree o e).result.map fun made =>
      String.ofList (Text.trimEnd
        (Markdown.frontMatter o.metadata made.1 ++ Markdown.layOut 0 [] made.1)) :=
  finish_unhooked ho _

end

section

variable {machine : Machine} {o : Options} {html : String}

theorem convertPageOn_of_error {error : ConversionError}
    (h : (chosenElement machine.readers o html).result = .error error) :
    (convertPageOn machine o html).markdown.result = .error error := by
  unfold convertPageOn
  simp only [h]
  change (convertPage machine.readers o html).markdown.result = _
  unfold convertPage finish pageTree
  simp only [Traced.result_bind, h]
  rfl

/-- A machine with room for the element that is chosen converts it. -/
theorem convertPageOn_of_room {e : Dom.Element}
    (h : (chosenElement machine.readers o html).result = .ok e)
    (hroom : machine.reach o e = .text) :
    (convertPageOn machine o html).markdown.result = (convertElement o e).markdown.result := by
  unfold convertPageOn
  simp only [h, Except.map, hroom]
  refine (finish_congr o ?_).1
  unfold pageTree
  rw [Traced.result_bind, h]
  rfl

/-- Without room it fails: where the element could not be converted anyway, or for this reason. -/
theorem convertPageOn_of_no_room {e : Dom.Element}
    (h : (chosenElement machine.readers o html).result = .ok e)
    (hroom : machine.reach o e ≠ .text) :
    (∃ error, (semanticTree o e).result = .error error ∧
        (convertPageOn machine o html).markdown.result = .error error) ∨
      (convertPageOn machine o html).markdown.result = .error .tooNested := by
  unfold convertPageOn
  simp only [h, Except.map]
  cases hreach : machine.reach o e with
  | nothing =>
      refine Or.inr ?_
      simp only [Traced.result_bind, h]
      rfl
  | tree =>
      -- The tree is made first, so its own error comes before the lack of room.
      simp only [pageTree, Traced.result_bind, h]
      change (∃ error, (semanticTree o e).result = .error error ∧
        ((semanticTree o e).result >>= fun _ => _) = _) ∨
          ((semanticTree o e).result >>= fun _ => _) = _
      cases (semanticTree o e).result with
      | error error => exact Or.inl ⟨error, rfl, rfl⟩
      | ok made => exact Or.inr rfl
  | text => exact absurd hreach hroom

section

variable (helements : o.WithoutElementHooks) (hnodes : o.WithoutNodeHooks) (hvalid : o.Validated)
  {error : ConversionError} (h : (convertPageOn machine o html).markdown.result = .error error)

include helements hnodes hvalid h

/-- Without hooks, the conversion of the element that is chosen fails where an element below is at
    fault or room is missing. -/
theorem convertPageOn_error_of_chosen {e : Dom.Element}
    (hchosen : (chosenElement machine.readers o html).result = .ok e) :
    PageFault o e.descendants error ∨ error = .tooNested ∧ machine.reach o e ≠ .text := by
  have htree := semanticTree_fault helements hvalid e
  unfold Traced.Ends at htree
  -- Rendering without hooks fails for no tree, so the error is that of making one, or room is
  -- missing.
  by_cases hroom : machine.reach o e = .text
  · rw [convertPageOn_of_room hchosen hroom, convertElement_unhooked hnodes] at h
    cases hmade : (semanticTree o e).result with
    | ok made =>
        rw [hmade] at h
        exact nomatch h
    | error fault =>
        rw [hmade] at h htree
        rw [← Except.error.inj h]
        exact Or.inl htree
  · rcases convertPageOn_of_no_room hchosen hroom with ⟨fault, hmade, hfailed⟩ | hfailed
    · rw [hmade] at htree
      rw [hfailed] at h
      rw [← Except.error.inj h]
      exact Or.inl htree
    · rw [hfailed] at h
      exact Or.inr ⟨(Except.error.inj h).symm, hroom⟩

/-- Why a conversion fails on a machine, without hooks. -/
theorem convertPageOn_error : MachineFault machine o html error := by
  cases hread : o.reader.find machine.readers with
  | error fault =>
      -- Nothing is read without a reader, so nothing is chosen.
      have hchosen : (chosenElement machine.readers o html).result = .error (.reader fault) := by
        unfold chosenElement openPage
        rw [hread]
        rfl
      rw [convertPageOn_of_error hchosen] at h
      rw [← Except.error.inj h]
      exact .reader fault hread
  | ok read =>
      rcases (chosenElement_ends hread html).cases with ⟨e, hchosen, _⟩ | ⟨fault, hchosen, hfault⟩
      · rcases convertPageOn_error_of_chosen helements hnodes hvalid h hchosen with
          hpage | ⟨rfl, hroom⟩
        · exact .page e error hchosen hpage
        · exact .nested e hchosen hroom
      · rw [convertPageOn_of_error hchosen] at h
        rw [← Except.error.inj h]
        rcases hfault with ⟨text, reason, hasked, hrefused, rfl⟩
        exact .rejected read text reason hread hasked hrefused

end

end

/-- A conversion with checked options, without hooks, and with a reader that is there, fails if the
    reader refuses a text. Otherwise it goes on with an element of what was read, and on a machine
    that bears its nesting it fails only when the tree of the element cannot be made. Then an
    address to shorten cannot be read, or an integer has too many digits. And on a machine that does
    not bear it, room may be missing. -/
theorem convertPage_faults {settings : List (String × Setting)} {o : Options}
    (hsettings : Options.ofSettings settings = .ok o) (helements : o.WithoutElementHooks)
    (hnodes : o.WithoutNodeHooks) {machine : Machine} {read : Reader}
    (hread : o.reader.find machine.readers = .ok read) {depth : Nat} (hbears : machine.Bears depth)
    (html : String) :
    (∃ text reason, AskedToRead o read html text ∧ read text = .error reason ∧
        (convertPageOn machine o html).markdown.result = .error (.rejected reason)) ∨
      ∃ e, (chosenElement machine.readers o html).result = .ok e ∧
        (nesting o e ≤ depth →
          ((∃ text, (convertPageOn machine o html).markdown.result = .ok text) ↔
            ∃ nodes, (lower o 0 e).result = .ok nodes ∧ (o.shortenUrls = true →
              ∀ source ∈ Url.sources nodes, Url.isReadable source = true))) ∧
        ∀ fault, (convertPageOn machine o html).markdown.result = .error fault →
          PageFault o e.descendants fault ∧ (ReadsWordLists read → fault ≠ .urlIsList) ∨
            fault = .tooNested ∧ depth < nesting o e := by
  rcases (chosenElement_ends hread html).cases with ⟨e, hchosen, hfrom⟩ | ⟨fault, hchosen, hfault⟩
  · refine Or.inr ⟨e, hchosen, fun hnesting => ?_, fun fault hfault => ?_⟩
    -- With enough room a string comes out as soon as the tree is made.
    · rw [convertPageOn_of_room hchosen (hbears o e hnesting), convertElement_unhooked hnodes,
        ← semanticTree_ok_iff]
      cases (semanticTree o e).result with
      | error fault => exact ⟨fun ⟨_, h⟩ => (nomatch h), fun ⟨_, h⟩ => (nomatch h)⟩
      | ok made => exact ⟨fun _ => ⟨made, rfl⟩, fun _ => ⟨_, rfl⟩⟩
    · rcases convertPageOn_error_of_chosen helements hnodes (validated_of_ofSettings hsettings)
        hfault hchosen with hpage | ⟨rfl, hroom⟩
      · refine Or.inl ⟨hpage, fun hwords => hpage.ne_urlIsList fun d hd => ?_⟩
        -- The elements below are those of a page that the reader has made.
        rcases hfrom with ⟨text, page, _, htext, rfl | hmem⟩
        · exact hwords text page htext d hd
        · exact hwords text page htext d (Dom.Element.descendants_subset _ e hmem hd)
      · exact Or.inr ⟨rfl, Nat.lt_of_not_le fun hnesting => hroom (hbears o e hnesting)⟩
  · rcases hfault with ⟨text, reason, hasked, hrefused, rfl⟩
    exact Or.inl ⟨text, reason, hasked, hrefused, convertPageOn_of_error hchosen⟩

/-- The readers of HTML make lists only of words. -/
theorem htmlReaders_wordLists {features : Json.Value} {read : Reader}
    (h : Markup.htmlReaders features = .ok read) : ReadsWordLists read := by
  unfold Markup.htmlReaders at h
  cases hfound : Markup.findCompletion features with
  | error fault =>
      rw [hfound] at h
      exact nomatch h
  | ok completion =>
      rw [hfound] at h
      rw [← Except.ok.inj h]
      intro html page hpage d hd
      rw [← Except.ok.inj hpage] at hd
      exact Markup.readPage_wordLists completion html.toList d hd

/-- Brackets do no harm outside of an authority. -/
theorem convertPage_faults_none :
    let settings : List (String × Setting) :=
      [("refify_urls", .value (.bool true)), ("dom_parser", .value (.string "html.parser"))]
    let o := { Options.default with shortenUrls := true, reader := .named "html.parser" }
    let html := "<html><body><a href=\"https://a.org/b/[c/d\">e</a></body></html>"
    let machine : Machine :=
      ⟨Markup.htmlReaders, fun o e => if nesting o e ≤ 100 then .text else .nothing⟩
    let read : Reader := fun html => .ok (Markup.htmlPage (Markup.readPage .asWritten html.toList))
    Options.ofSettings settings = .ok o ∧ o.WithoutElementHooks ∧ o.WithoutNodeHooks ∧
      o.reader.find machine.readers = .ok read ∧ machine.Bears 100 ∧ ReadsWordLists read ∧
      ((∃ text reason, AskedToRead o read html text ∧ read text = .error reason ∧
          (convertPageOn machine o html).markdown.result = .error (.rejected reason)) ∨
        ∃ e, (chosenElement machine.readers o html).result = .ok e ∧
          (nesting o e ≤ 100 →
            ((∃ text, (convertPageOn machine o html).markdown.result = .ok text) ↔
              ∃ nodes, (lower o 0 e).result = .ok nodes ∧ (o.shortenUrls = true →
                ∀ source ∈ Url.sources nodes, Url.isReadable source = true))) ∧
          ∀ fault, (convertPageOn machine o html).markdown.result = .error fault →
            PageFault o e.descendants fault ∧ (ReadsWordLists read → fault ≠ .urlIsList) ∨
              fault = .tooNested ∧ 100 < nesting o e) ∧
      (convertPageOn machine o html).markdown.result = .ok "[e](ref0)" := by
  intro settings o html machine read
  have hsettings : Options.ofSettings settings = .ok o := by
    simp [settings, o, Options.ofSettings, strangers, optionNames, taken, Entries.lookup?, flagOf,
      readerOf, Options.default]
  have hread : o.reader.find machine.readers = .ok read := rfl
  have hwords : ReadsWordLists read := by
    have hfound : Markup.htmlReaders (.string "html.parser") = .ok read := rfl
    exact htmlReaders_wordLists hfound
  have hbears : machine.Bears 100 := fun o e hnesting => if_pos hnesting
  exact ⟨hsettings, ⟨rfl, rfl⟩, ⟨rfl, rfl⟩, hread, hbears, hwords,
    convertPage_faults hsettings ⟨rfl, rfl⟩ ⟨rfl, rfl⟩ hread hbears html, by decide +kernel⟩

/-- A bracket that is not closed in the authority of one link, and the whole page is not
    converted. Without shortening, the link is written like any other. -/
theorem convertPage_bad_address :
    let settings (shorten : Bool) : List (String × Setting) :=
      [("refify_urls", .value (.bool shorten)), ("dom_parser", .value (.string "html.parser"))]
    let o := { Options.default with reader := .named "html.parser" }
    let html := "<html><body><a href=\"http://[x\">y</a></body></html>"
    let machine : Machine := ⟨Markup.htmlReaders, fun _ _ => .text⟩
    Options.ofSettings (settings true) = .ok { o with shortenUrls := true } ∧
      Options.ofSettings (settings false) = .ok o ∧ o.WithoutElementHooks ∧ o.WithoutNodeHooks ∧
      (∃ read, o.reader.find machine.readers = .ok read) ∧
      (convertPageOn machine { o with shortenUrls := true } html).markdown.result =
        .error (.badUrl .misplacedBracket) ∧
      (convertPageOn machine o html).markdown.result = .ok "[y](http://%5Bx)" := by
  intro settings o html machine
  refine ⟨?_, ?_, ⟨rfl, rfl⟩, ⟨rfl, rfl⟩, ⟨_, rfl⟩, by decide +kernel, by decide +kernel⟩
  · simp [settings, o, Options.ofSettings, strangers, optionNames, taken, Entries.lookup?, flagOf,
      readerOf, Options.default]
  · simp [settings, o, Options.ofSettings, strangers, optionNames, taken, Entries.lookup?, flagOf,
      readerOf, Options.default]

end PageDistill
