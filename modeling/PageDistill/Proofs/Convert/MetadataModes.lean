import PageDistill.Proofs.Convert.Failures
import PageDistill.Proofs.Convert.FrontMatterAdded
import PageDistill.Proofs.Lower.MetadataModes
import PageDistill.Proofs.Metadata.Contents

/-!
# Pages in the Two Modes of Metadata

Extended metadata adds sections at the end of the front matter, and changes nothing else.

Both modes choose the same element of a page, and its trees differ in their metadata only, so the
content and the references are the same, and the one block is the other with more lines at its
end (`convertPage_modes`).

The modes differ in one more way. Structured data is read in the extended mode only. A block that
is not JSON is left out, but one with an integer of too many digits ends the conversion, which the
basic mode would bring to its end (`convertPage_long_number`).

## Main definitions

* `unlines`, `fronted`: Lines, and content with front matter before it.
* `HoldsLongNumber`: Structured data that cannot be read.
* `numberPage`, `numberRoot`: A page with a long integer for its data.

## Theorems

* `frontMatter_eq_fronted`: The front matter of a tree line by line.
* `semanticTree_modes`: The trees of an element in both modes.
* `pageTree_modes`: The trees of a page in both modes.
* `convertPage_modes`: The conversions of a page in both modes.
* `convertPage_long_number`: A page that is converted in one of the modes.
-/

namespace PageDistill

open Markdown (Node Metadata frontMatter metadataLines entryLines extendedLines)

/-- Lines, each with its end. -/
def unlines (lines : List (List Char)) : List Char := lines.flatMap (· ++ ['\n'])

/-- Content with front matter before it, which tells what stands between its rules. -/
def fronted (told content : List Char) : String :=
  String.ofList (Text.trimEnd ("---\n".toList ++ told ++ "---\n\n".toList ++ content))

/-- A head below an element has structured data with an integer of too many digits. -/
def HoldsLongNumber (e : Dom.Element) (count : Nat) : Prop :=
  ∃ head ∈ e.descendants, Text.foldName head.name = "head" ∧
    ∃ block ∈ head.named "script", block.tag.hasText "type" structuredDataType = true ∧
      Json.read (blockSource block) = .error (.tooManyDigits count)

theorem unlines_append (a b : List (List Char)) : unlines (a ++ b) = unlines a ++ unlines b :=
  List.flatMap_append

theorem joinWith_lineEnd (first : List Char) (lines : List (List Char)) :
    Text.joinWith ['\n'] (first :: lines) ++ ['\n'] = unlines (first :: lines) := by
  induction lines generalizing first with
  | nil => simp [unlines, Text.joinWith]
  | cons next others ih =>
      rw [Text.joinWith_cons_cons, List.append_assoc, ih]
      simp [unlines]

/-- The front matter of a tree with what follows it, line by line. -/
theorem frontMatter_eq_fronted {mode : MetadataChoice} (hmode : mode.wanted = true)
    (nodes : List Node) (content : List Char) :
    String.ofList (Text.trimEnd (frontMatter mode nodes ++ content)) =
      fronted (unlines (metadataLines mode.isExtended (Markdown.metadataOf nodes))) content := by
  have hlines := joinWith_lineEnd "---".toList
    (metadataLines mode.isExtended (Markdown.metadataOf nodes))
  have hblock : frontMatter mode nodes =
      "---\n".toList ++ unlines (metadataLines mode.isExtended (Markdown.metadataOf nodes)) ++
        "---\n\n".toList := by
    unfold frontMatter
    rw [if_pos hmode]
    change Text.joinWith _ _ ++ (['\n'] ++ "---\n\n".toList) = _
    rw [← List.append_assoc, hlines]
    rfl
  rw [hblock]
  rfl

section

variable {o : Options} (ho : o.WithoutElementHooks)

include ho

/-- The tree of an element in the basic mode is that in the extended mode without the additions,
    unless structured data cannot be read. -/
theorem semanticTree_modes (e : Dom.Element) :
    (∃ count, HoldsLongNumber e count ∧
      (semanticTree (o.withMetadata .extended) e).result = .error (.tooManyDigits (some count))) ∨
    (semanticTree (o.withMetadata .basic) e).result =
      (semanticTree (o.withMetadata .extended) e).result.map
        fun tree => (basicNodes tree.1, tree.2) := by
  rcases lower_follows o ho 0 e with ⟨error, hlong, herror⟩ | hlower
  · -- The error says which block is at fault.
    have hfault := lower_sources (o := o.withMetadata .extended) ho 0 e
    unfold Traced.Ends at hfault
    rw [herror] at hfault
    have htree : (semanticTree (o.withMetadata .extended) e).result = .error error := by
      rw [semanticTree_result, herror]
      rfl
    cases hfault with
    | domain kind _ => exact absurd hlong id
    | limit kind _ => exact absurd hlong id
    | columns row _ _ _ _ => exact absurd hlong (by simp [LongNumber])
    | number head block count hhead hname hmode hblock htype hread =>
        exact Or.inl ⟨count, ⟨head, hhead, hname, block, hblock, htype, hread⟩, htree⟩
  · exact Or.inr (semanticTree_change (o.withMetadata .basic) (o.withMetadata .extended) rfl
      (fun state nodes => Markdown.shorten_onMetadata Metadata.basic state nodes) hlower)

/-- The tree of a page in the basic mode, likewise: both modes choose the same element. -/
theorem pageTree_modes (readers : Readers) (html : String) :
    (∃ page e count, (openPage readers o.reader html).result = .ok page ∧
      (contentElement readers (o.withMetadata .extended) page).result = .ok e ∧
      HoldsLongNumber e count ∧
      (pageTree readers (o.withMetadata .extended) html).result =
        .error (.tooManyDigits (some count))) ∨
    (pageTree readers (o.withMetadata .basic) html).result =
      (pageTree readers (o.withMetadata .extended) html).result.map
        fun tree => (basicNodes tree.1, tree.2) := by
  have hreader : ∀ mode,
      openPage readers (o.withMetadata mode).reader html = openPage readers o.reader html :=
    fun _ => rfl
  unfold pageTree chosenElement
  simp only [Traced.result_bind, hreader]
  cases hopen : (openPage readers o.reader html).result with
  | error fault => exact Or.inr rfl
  | ok page =>
      -- Both modes want metadata, so they choose the same element.
      change _ ∨ ((contentElement readers (o.withMetadata .extended) page).result >>=
          fun e => (semanticTree (o.withMetadata .basic) e).result) =
        ((contentElement readers (o.withMetadata .extended) page).result >>=
          fun e => (semanticTree (o.withMetadata .extended) e).result).map _
      cases hcontent : (contentElement readers (o.withMetadata .extended) page).result with
      | error fault => exact Or.inr rfl
      | ok e =>
          rcases semanticTree_modes ho e with ⟨count, hholds, herror⟩ | htree
          · refine Or.inl ⟨page, e, count, rfl, hcontent, hholds, ?_⟩
            change (contentElement readers (o.withMetadata .extended) page).result >>= _ = _
            rw [hcontent]
            exact herror
          · exact Or.inr htree

/-- The conversions of a page in the two modes. Unless the page has structured data that cannot be
    read, both fail in the same way, or both write the same content after front matter that begins
    alike and goes on in the extended mode; and both leave the same references. -/
theorem convertPage_modes (hnodes : o.WithoutNodeHooks) (readers : Readers) (html : String) :
    let basic := convertPage readers (o.withMetadata .basic) html
    let extended := convertPage readers (o.withMetadata .extended) html
    (∃ page e count, (openPage readers o.reader html).result = .ok page ∧
      (contentElement readers (o.withMetadata .extended) page).result = .ok e ∧
      HoldsLongNumber e count ∧
      extended.markdown.result = .error (.tooManyDigits (some count))) ∨
    (extended.urlMap = basic.urlMap ∧
      ((∃ error, basic.markdown.result = .error error ∧ extended.markdown.result = .error error) ∨
        ∃ (m : Metadata) (content : List Char),
          basic.markdown.result = .ok (fronted (unlines (entryLines "" m.standard)) content) ∧
          extended.markdown.result =
            .ok (fronted (unlines (entryLines "" m.standard) ++ unlines (extendedLines m))
              content))) := by
  intro basic extended
  have hbasic : basic.markdown.result = _ :=
    finish_unhooked (o := o.withMetadata .basic) hnodes
      (pageTree readers (o.withMetadata .basic) html)
  have hextended : extended.markdown.result = _ := finish_unhooked (o := o.withMetadata .extended)
    hnodes (pageTree readers (o.withMetadata .extended) html)
  rcases pageTree_modes ho readers html with
    ⟨page, e, count, hopen, hcontent, hholds, herror⟩ | htree
  · rw [herror] at hextended
    exact Or.inl ⟨page, e, count, hopen, hcontent, hholds, hextended⟩
  -- URLs are shortened alike, so the tables are the same.
  · have hmaps : (finish (o.withMetadata .basic) (pageTree readers _ html)).urlMap =
        (finish (o.withMetadata .extended) (pageTree readers _ html)).urlMap :=
      finish_urlMap rfl basicNodes htree
    refine Or.inr ⟨hmaps.symm, ?_⟩
    rw [hbasic, hextended, htree]
    cases (pageTree readers (o.withMetadata .extended) html).result with
    | error fault => exact Or.inl ⟨fault, rfl, rfl⟩
    | ok tree =>
        refine Or.inr ⟨Markdown.metadataOf tree.1, Markdown.layOut 0 [] tree.1,
          congrArg Except.ok ?_, congrArg Except.ok ?_⟩
        · -- In the basic tree the content is the same, and the metadata is cut.
          refine (frontMatter_eq_fronted rfl (basicNodes tree.1) _).trans ?_
          rw [Markdown.layOut_onMetadata, Markdown.metadataOf_onMetadata Metadata.basic rfl]
          change fronted (unlines (entryLines "" _ ++ [])) _ = _
          rw [List.append_nil]
          rfl
        · refine (frontMatter_eq_fronted rfl tree.1 _).trans ?_
          change fronted (unlines (_ ++ extendedLines _)) _ = _
          rw [unlines_append]

end

/-- A page with a title, an entry for a preview, structured data and a URL to shorten. -/
theorem convertPage_modes_preview :
    let html := "<html><head><title>T</title><meta property=\"og:type\" content=\"o\">" ++
      "<script type=\"application/ld+json\">[7]</script></head>" ++
      "<body><a href=\"https://a.org/b/c.js\">x</a></body></html>"
    let o := { Options.default with shortenUrls := true, reader := .named "html.parser" }
    let readers := Markup.htmlReaders
    let basic := convertPage readers (o.withMetadata .basic) html
    let extended := convertPage readers (o.withMetadata .extended) html
    o.WithoutElementHooks ∧ o.WithoutNodeHooks ∧
      ((∃ page e count, (openPage readers o.reader html).result = .ok page ∧
        (contentElement readers (o.withMetadata .extended) page).result = .ok e ∧
        HoldsLongNumber e count ∧
        extended.markdown.result = .error (.tooManyDigits (some count))) ∨
      (extended.urlMap = basic.urlMap ∧
        ((∃ error, basic.markdown.result = .error error ∧
          extended.markdown.result = .error error) ∨
          ∃ (m : Metadata) (content : List Char),
            basic.markdown.result = .ok (fronted (unlines (entryLines "" m.standard)) content) ∧
            extended.markdown.result =
              .ok (fronted (unlines (entryLines "" m.standard) ++ unlines (extendedLines m))
                content)))) ∧
      extended.markdown.result = .ok ("---\ntitle: \"T\"\nopenGraph:\n  type: \"o\"\n" ++
        "schema:\n  (unknown type):\n    value: 7\n---\n\n[x](ref0://c.js)") := by
  intro html o readers basic extended
  have ho : o.WithoutElementHooks := ⟨rfl, rfl⟩
  have hnodes : o.WithoutNodeHooks := ⟨rfl, rfl⟩
  exact ⟨ho, hnodes, convertPage_modes ho hnodes readers html, by decide +kernel⟩

section

open Markup

/-- The end tags of a script and a head, and a body. -/
def afterScript : List Char := "</script></head><body>x</body></html>".toList

/-- A page with an integer of some digits for its structured data. -/
def numberPage (digits : Nat) : List Char :=
  "<html><head>".toList ++ ("<script type=\"application/ld+json\">".toList ++
    (List.replicate digits '1' ++ afterScript))

/-- The root element of the page. -/
def numberRoot (digits : Nat) : Dom.Element :=
  ⟨"[document]", .ordinary, ⟨"html", []⟩,
    [.element (numberHead digits).tag (numberHead digits).nodes, .element ⟨"body", []⟩ [.text "x"]]⟩

/-- No digit begins an end tag. -/
theorem cutRaw_digits (n : Nat) :
    cutRaw .asWritten "script".toList (List.replicate n '1' ++ afterScript) =
      (List.replicate n '1', afterScript) := by
  induction n with
  | zero => decide
  | succ n ih =>
      rw [List.replicate_succ, List.cons_append, cutRaw, ih]
      rfl

/-- The text of a script stands as it is between its tags. -/
theorem tokensWithin_script (fuel : Nat) {s content rest : List Char}
    (h : cutRaw .asWritten "script".toList s = (content, rest)) :
    tokensWithin .asWritten (fuel + 3) ("<script type=\"application/ld+json\">".toList ++ s) =
      .startTag "script" [("type", .text "application/ld+json")] false :: .text content ::
        tokensWithin .asWritten (fuel + 2) rest := by
  have htag : nextToken .asWritten (fuel + 3)
      ('<' :: ("script type=\"application/ld+json\">".toList ++ s)) =
        (.startTag "script" [("type", .text "application/ld+json")] false, s) := rfl
  have hcontents : cutContents? .asWritten "script" s = some (content, rest) := by
    change some (cutRaw .asWritten "script".toList s) = _
    rw [h]
  change tokensWithin .asWritten (fuel + 3)
    ('<' :: ("script type=\"application/ld+json\">".toList ++ s)) = _
  rw [tokensWithin, htag]
  simp only [Bool.false_eq_true, if_false, hcontents]

theorem readPage_number (n : Nat) :
    readPage .asWritten (numberPage (n + 1)) =
      ⟨[.element (numberRoot (n + 1)).tag (numberRoot (n + 1)).nodes]⟩ := by
  -- The fuel of the reader is the length of the page, so it is told as a sum.
  have hlength : (numberPage (n + 1)).length = n + 80 + 5 := by
    have hparts : "<html><head>".toList.length = 12 ∧
        "<script type=\"application/ld+json\">".toList.length = 35 ∧
        afterScript.length = 37 := by decide
    unfold numberPage
    rw [List.length_append, List.length_append, List.length_append, List.length_replicate, hparts.1,
      hparts.2.1, hparts.2.2]
    omega
  -- The tokens in front of the number and behind it are read by computation.
  have hfront : ∀ fuel s, tokensWithin .asWritten (fuel + 5) ("<html><head>".toList ++ s) =
      .startTag "html" [] false :: .startTag "head" [] false ::
        tokensWithin .asWritten (fuel + 3) s := fun _ _ => rfl
  have hback : ∀ fuel, tokensWithin .asWritten (fuel + 7) afterScript =
      [.endTag "script", .endTag "head", .startTag "body" [] false, .text ['x'],
        .endTag "body", .endTag "html"] := fun _ => rfl
  have htokens : tokens .asWritten (numberPage (n + 1)) =
      .startTag "html" [] false :: .startTag "head" [] false ::
        .startTag "script" [("type", .text "application/ld+json")] false ::
        .text (List.replicate (n + 1) '1') ::
        [.endTag "script", .endTag "head", .startTag "body" [] false, .text ['x'],
          .endTag "body", .endTag "html"] := by
    have hscript := tokensWithin_script (n + 80) (cutRaw_digits (n + 1))
    have hrest : tokensWithin .asWritten (n + 80 + 2) afterScript = _ := hback (n + 75)
    rw [hrest] at hscript
    rw [tokens, hlength]
    exact (hfront (n + 80) _).trans (congrArg _ (congrArg _ hscript))
  -- A text of digits is not blank, so it is not collapsed.
  have hcollapsed : collapsed (String.ofList (List.replicate (n + 1) '1')) =
      String.ofList (List.replicate (n + 1) '1') := by
    unfold collapsed
    simp only [String.toList_ofList, List.replicate_succ, List.all_cons]
    rfl
  unfold readPage readNodes
  rw [htokens]
  change Dom.Document.mk [.element _ [.element _ [.element _ [.text (collapsed _)]], _]] = _
  rw [hcollapsed]
  rfl

end

/-- A page whose structured data is an integer of too many digits is converted in the basic mode
    only. -/
theorem convertPage_long_number :
    let html := String.ofList (numberPage 4301)
    let o := { Options.default with reader := .named "html.parser" }
    let readers := Markup.htmlReaders
    o.WithoutElementHooks ∧ o.WithoutNodeHooks ∧
      (convertPage readers (o.withMetadata .basic) html).markdown.result = .ok "---\n---\n\nx" ∧
      (convertPage readers (o.withMetadata .extended) html).markdown.result =
        .error (.tooManyDigits (some 4301)) := by
  intro html o readers
  let page : Page := Markup.htmlPage ⟨[.element (numberRoot 4301).tag (numberRoot 4301).nodes]⟩
  have hopen : (openPage readers o.reader html).result = .ok page := by
    refine Markup.openPage_asWritten ?_
    rw [String.toList_ofList]
    exact readPage_number 4300
  -- Both modes lower the root to the metadata of its head and the text of its body.
  have hlower : ∀ mode : MetadataChoice, mode.wanted = true →
      (lower (o.withMetadata mode) 0 (numberRoot 4301)).result =
        (extractMetadata mode.isExtended (numberHead 4301)).result.map
          fun m => [.metadata m, .text "x"] := by
    intro mode hmode
    have hblank : ∀ content, Dom.Node.text content ∈ (numberRoot 4301).nodes →
        Text.isAllBlank content.toList = true := by
      intro content hmem
      simp [numberRoot] at hmem
    have hchildren : (numberRoot 4301).children =
        [numberHead 4301, ⟨"html", .ordinary, ⟨"body", []⟩, [.text "x"]⟩] := rfl
    have hbody : (lowerElement (o.withMetadata mode) (lowerLevels (o.withMetadata mode) 256) 0
        ⟨"html", .ordinary, ⟨"body", []⟩, [.text "x"]⟩).result = .ok [.text "x"] := by
      refine (lowerElement_of_unhandled 0 rfl ?_).trans rfl
      rw [show (o.withMetadata mode).metadata.wanted = true from hmode]
      decide
    have hhead : (lowerElement (o.withMetadata mode) (lowerLevels (o.withMetadata mode) 256) 0
        (numberHead 4301)).result = _ := lowerElement_head 0 hmode rfl
    change (lowerLevels (o.withMetadata mode) (256 + 1) 0 (numberRoot 4301)).result = _
    rw [lowerLevels_of_blank ⟨rfl, rfl⟩ 256 0 _ hblank, hchildren]
    simp only [Traced.collect, Traced.result_bind, hhead, hbody]
    change ((extractMetadata mode.isExtended (numberHead 4301)).result.map _ >>= _) = _
    cases (extractMetadata mode.isExtended (numberHead 4301)).result <;> rfl
  have hcontent : ∀ mode : MetadataChoice, mode.wanted = true →
      (contentElement readers (o.withMetadata mode) page).result = .ok (numberRoot 4301) := by
    intro mode hmode
    unfold contentElement
    rw [show (o.withMetadata mode).metadata.wanted = true from hmode]
    rfl
  have hpage : ∀ mode : MetadataChoice, mode.wanted = true →
      (convertPage readers (o.withMetadata mode) html).markdown.result =
        (extractMetadata mode.isExtended (numberHead 4301)).result.map fun m =>
          String.ofList (Text.trimEnd (frontMatter mode [.metadata m, .text "x"] ++
            Markdown.layOut 0 [] [.metadata m, .text "x"])) := by
    intro mode hmode
    rw [(convertPage_eq readers (o.withMetadata mode) html hopen (hcontent mode hmode)).1]
    unfold convertElement
    rw [finish_unhooked (o := o.withMetadata mode) ⟨rfl, rfl⟩]
    rw [semanticTree_result, hlower mode hmode]
    cases (extractMetadata mode.isExtended (numberHead 4301)).result <;> rfl
  refine ⟨⟨rfl, rfl⟩, ⟨rfl, rfl⟩, ?_, ?_⟩
  · rw [hpage .basic rfl]
    change Except.ok (String.ofList (Text.trimEnd
      (frontMatter .basic [.metadata Metadata.empty, .text "x"] ++
        Markdown.layOut 0 [] [.metadata Metadata.empty, .text "x"]))) = _
    decide +kernel
  · exact (hpage .extended rfl).trans
      (congrArg (Except.map _) (extractMetadata_number 4300 (by decide)))

end PageDistill
