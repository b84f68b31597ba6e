import PageDistill.Markup.Encoding
import PageDistill.Metadata
import PageDistill.Proofs.Dom.Similar
import PageDistill.Proofs.Outcomes

/-!
# Heads That Tell the Same

Two heads from which the same metadata is extracted.

The metadata of a head is made of the texts of its titles, of entries that are read off single
tags, and of the sources of its blocks of structured data. So it is enough that the two heads
are similar with nothing hidden, and that tags at the same place give the same entry and are
of the same type (`TellsAlike`). Tags with the same attributes do.

A head that is written again names another encoding of its markup than it did before. Most of
the time the metadata tells nothing of that, since the tag that names the encoding has no key.
If it has one, what it tells changes with it; a head without such a tag is one that
`NamesNoEncoding`.

## Main definitions

* `TellsAlike`: Tags with the same entry.
* `SameEntries`: Heads of which extraction learns the same.
* `NamesNoEncoding`: A head whose entries do not name the encoding of the markup.

## Theorems

* `structuredData_ends`: What is known of structured data, and how reading it fails.
* `extractMetadata_congr`: Heads of which extraction learns the same have the same metadata.
* `extractMetadata_similar`: Similar heads have the same metadata.
* `extractMetadata_encodeElement`: Naming the encoding does not change it, where the entries
  do not tell of it.
-/

namespace PageDistill

open Dom (AllSimilar Mates SameAttrs nothingHidden)

/-- Tags with the same entry, and alike in whether they hold structured data. -/
def TellsAlike (tag tag' : Dom.Tag) : Prop :=
  (∀ extended m, addEntry extended m tag' = addEntry extended m tag) ∧
    tag'.hasText "type" structuredDataType = tag.hasText "type" structuredDataType

theorem entryKind?_congr {tag tag' : Dom.Tag} (hname : tag'.text? "name" = tag.text? "name")
    (hproperty : tag'.text? "property" = tag.text? "property") :
    entryKind? tag' = entryKind? tag := by
  unfold entryKind?
  rw [hname, hproperty]

/-- Tags with the same attributes tell the same. -/
theorem tellsAlike_of_sameAttrs {tag tag' : Dom.Tag} (h : SameAttrs tag tag') :
    TellsAlike tag tag' := by
  refine ⟨fun extended m => ?_, h.hasText_eq "type" structuredDataType⟩
  unfold addEntry
  rw [h.filled?_eq, entryKind?_congr (h.text?_eq "name") (h.text?_eq "property")]

/-- What holds of the values of all blocks, and goes over from a list to its items, holds of the
    structured data. Blocks that are not JSON are skipped, and only an integer of too many digits
    ends the reading. -/
theorem structuredData_ends {good : Json.Value → Prop} {bad : ConversionError → Prop}
    {head : Dom.Element} (hitems : ∀ items, good (.array items) → ∀ item ∈ items, good item)
    (hvalue : ∀ block ∈ head.named "script", ∀ value,
      Json.read (blockSource block) = .ok value → good value)
    (hlong : ∀ block ∈ head.named "script", block.tag.hasText "type" structuredDataType = true →
      ∀ count, Json.read (blockSource block) = .error (.tooManyDigits count) →
        bad (.tooManyDigits (some count))) :
    (structuredData head).Ends (fun items => ∀ item ∈ items, good item) bad := by
  unfold structuredData
  refine Traced.Ends.collect (fun _ items => ∀ item ∈ items, good item) _ _ (List.forall_mem_nil _)
    (fun _ _ _ _ hfirst hothers => List.forall_mem_append.mpr ⟨hfirst, hothers⟩)
    fun block hblock => ?_
  rcases List.mem_filter.mp hblock with ⟨hscript, htype⟩
  unfold blockItems
  cases hread : Json.read (blockSource block) with
  | error fault =>
      cases fault with
      | malformed =>
          exact (Traced.Ends.warn _).bind fun _ _ => Traced.Ends.pure (List.forall_mem_nil _)
      | tooManyDigits count => exact Traced.Ends.fail (hlong block hscript htype count hread)
  | ok value =>
      have hgood := hvalue block hscript value hread
      cases value with
      | array items => exact Traced.Ends.pure (hitems items hgood)
      | _ => exact Traced.Ends.pure (List.forall_mem_singleton.mpr hgood)

/-- Without hidden parts what an element says is the same. -/
theorem text_eq_of_mates {attrs : Dom.AttrRel} {around : List String} {e e' : Dom.Element}
    (h : Mates attrs nothingHidden around e e') : e'.text = e.text := by
  rw [Dom.Element.text, Dom.Element.text, h.strings_eq fun _ _ _ _ hhidden => hhidden.elim]

theorem soleString?_similar {attrs : Dom.AttrRel} {around : List String} {role : Dom.TextRole}
    {node node' : Dom.Node} (h : Dom.Similar attrs nothingHidden around role node node') :
    soleString? node' = soleString? node := by
  cases h with
  | text => rfl
  | special => rfl
  | hidden hname hattrs h h' => exact h.elim
  | element hname hattrs h =>
      cases h with
      | nil => rfl
      | cons hchild hrest =>
          cases hrest with
          | nil =>
              rw [soleString?, soleString?]
              exact soleString?_similar hchild
          | cons hnext hothers => rfl

/-- Similar blocks of structured data have the same source. -/
theorem blockSource_similar {attrs : Dom.AttrRel} {around : List String} {e e' : Dom.Element}
    (h : Mates attrs nothingHidden around e e') : blockSource e' = blockSource e := by
  have htext := text_eq_of_mates h
  have hnodes := h.nodes
  unfold blockSource
  rw [htext]
  generalize e.nodes = nodes at hnodes
  generalize e'.nodes = nodes' at hnodes
  cases hnodes with
  | nil => rfl
  | cons hchild hrest =>
      cases hrest with
      | nil => simp only [soleString?_similar hchild]
      | cons hnext hothers => rfl

/-- A fold over two lists in step. -/
theorem foldl_eq_of_forall₂ {α β : Type} {f : α → β → α} {l l' : List β}
    (h : List.Forall₂ (fun b b' => ∀ a, f a b' = f a b) l l') (a : α) :
    l'.foldl f a = l.foldl f a := by
  induction h generalizing a with
  | nil => rfl
  | cons hhead _ ih => rw [List.foldl_cons, List.foldl_cons, hhead, ih]

/-- Heads of which extraction learns the same: titles with the same text, tags with the same
    entries, and scripts with the same type and source. -/
structure SameEntries (head head' : Dom.Element) : Prop where
  titles : List.Forall₂ (fun d d' => d'.text = d.text) (head.named "title") (head'.named "title")
  metas : List.Forall₂ (fun d d' : Dom.Element => TellsAlike d.tag d'.tag) (head.named "meta")
    (head'.named "meta")
  scripts : List.Forall₂
    (fun d d' : Dom.Element => TellsAlike d.tag d'.tag ∧ blockSource d' = blockSource d)
    (head.named "script") (head'.named "script")

section

variable {head head' : Dom.Element} (h : SameEntries head head')

include h

theorem headEntries_congr (extended : Bool) :
    headEntries extended head' = headEntries extended head := by
  unfold headEntries
  have htitles := foldl_eq_of_forall₂ (f := fun (m : Markdown.Metadata) (title : Dom.Element) =>
    { m with
      standard :=
        Entries.put m.standard "title" (.text (String.ofList (Markdown.escape title.text))) })
    (h.titles.imp fun d d' hd m => by simp only [hd]) Markdown.Metadata.empty
  have hmetas := fun m => foldl_eq_of_forall₂
    (f := fun m (e : Dom.Element) => addEntry extended m e.tag)
    (h.metas.imp fun d d' hd m => hd.1 extended m) m
  simp only [htitles, hmetas]

theorem structuredData_congr : (structuredData head').result = (structuredData head).result := by
  have hblocks := List.rel_filter (p := fun e => e.tag.hasText "type" structuredDataType)
    (q := fun e => e.tag.hasText "type" structuredDataType)
    (fun d d' (hd : TellsAlike (Dom.Element.tag d) (Dom.Element.tag d') ∧
      blockSource d' = blockSource d) => by
      simp only [hd.1.2]) h.scripts
  refine (Traced.result_collect_congr (hblocks.imp fun d d' hd => ?_)).symm
  unfold blockItems
  rw [hd.2]

/-- Heads of which extraction learns the same have the same metadata. -/
theorem extractMetadata_congr (extended : Bool) :
    (extractMetadata extended head').result = (extractMetadata extended head).result := by
  unfold extractMetadata
  cases extended with
  | false => rw [if_neg Bool.false_ne_true, if_neg Bool.false_ne_true, headEntries_congr h]
  | true =>
      rw [if_pos rfl, if_pos rfl, headEntries_congr h]
      exact Traced.result_bind_congr (structuredData_congr h) fun _ => rfl

end

theorem named_similar {around : List String} {head head' : Dom.Element}
    (h : Mates TellsAlike nothingHidden around head head') (name : String) :
    List.Forall₂ (fun d d' => ∃ around, Mates TellsAlike nothingHidden around d d')
      (head.named name) (head'.named name) :=
  (h.filter_descendants (fun other => other == name)
    fun _ _ _ _ hhidden => hhidden.elim).imp fun _ _ ⟨_, hmates⟩ => ⟨_, hmates⟩

/-- Similar heads have the same metadata. -/
theorem extractMetadata_similar {around : List String} {head head' : Dom.Element}
    (h : Mates TellsAlike nothingHidden around head head') (extended : Bool) :
    (extractMetadata extended head').result = (extractMetadata extended head).result := by
  refine extractMetadata_congr ⟨?_, ?_, ?_⟩ extended
  · exact (named_similar h "title").imp fun d d' ⟨_, hd⟩ => text_eq_of_mates hd
  · exact (named_similar h "meta").imp fun d d' ⟨_, hd⟩ => hd.tag
  · exact (named_similar h "script").imp fun d d' ⟨_, hd⟩ => ⟨hd.tag, blockSource_similar hd⟩

namespace Markup

theorem name_withEncoding (tag : Dom.Tag) : (withEncoding tag).name = tag.name := by
  unfold withEncoding
  by_cases hmeta : tag.name = "meta"
  · rw [if_pos hmeta]
  · rw [if_neg hmeta]

/-- Only two attributes can name an encoding. -/
theorem attr?_withEncoding (tag : Dom.Tag) (name : String) (hcharset : name ≠ "charset")
    (hcontent : name ≠ "content") : (withEncoding tag).attr? name = tag.attr? name := by
  unfold withEncoding
  by_cases hmeta : tag.name = "meta"
  · rw [if_pos hmeta]
    unfold Dom.Tag.attr? encodedAttrs
    simp only
    by_cases hhas : tag.hasAttr "charset" = true
    · rw [if_pos hhas, Entries.lookup?_put_of_ne _ _ _ _ hcharset]
    · rw [if_neg hhas]
      cases (if ((tag.text? "http-equiv").any fun kind =>
          Text.foldName kind == "content-type") = true then tag.text? "content" else none) with
      | none => rfl
      | some content => exact Entries.lookup?_put_of_ne _ _ _ _ hcontent
  · rw [if_neg hmeta]

mutual

theorem similar_encodeNode {attrs : Dom.AttrRel} {hidden : Dom.Hiding} (around : List String)
    (parent : String) (role : Dom.TextRole) (node : Dom.Node)
    (h : ∀ d ∈ node.elements parent role, attrs d.tag (withEncoding d.tag)) :
    Dom.Similar attrs hidden around role node (encodeNode node) := by
  cases node with
  | text content => exact .text around role content
  | special kind content => exact .special around role kind content
  | element tag nodes =>
      exact .element (name_withEncoding tag) (h _ List.mem_cons_self)
        (similar_encodeNodes _ tag.name _ nodes fun d hd => h d (List.mem_cons_of_mem _ hd))

/-- Nodes are similar to the same nodes with the encoding of written markup. -/
theorem similar_encodeNodes {attrs : Dom.AttrRel} {hidden : Dom.Hiding} (around : List String)
    (parent : String) (role : Dom.TextRole) (nodes : List Dom.Node)
    (h : ∀ d ∈ Dom.elementsOf parent role nodes, attrs d.tag (withEncoding d.tag)) :
    AllSimilar attrs hidden around role nodes (encodeNodes nodes) := by
  cases nodes with
  | nil => exact .nil around role
  | cons node nodes =>
      rw [Dom.elementsOf] at h
      exact .cons (similar_encodeNode around parent role node fun d hd =>
          h d (List.mem_append_left _ hd))
        (similar_encodeNodes around parent role nodes fun d hd => h d (List.mem_append_right _ hd))

end

/-- An element is similar to itself with other encodings in it. -/
theorem mates_encodeElement {attrs : Dom.AttrRel} {hidden : Dom.Hiding} (around : List String)
    (e : Dom.Element) (hself : attrs e.tag (withEncoding e.tag))
    (h : ∀ d ∈ e.descendants, attrs d.tag (withEncoding d.tag)) :
    Mates attrs hidden around e (encodeElement e) where
  name := name_withEncoding e.tag
  tag := hself
  role := congrArg e.outerRole.within (name_withEncoding e.tag)
  nodes := similar_encodeNodes around e.name e.innerRole e.nodes h

end Markup

/-- A head whose entries do not name the encoding of its markup: every tag with a key keeps its
    content when the encoding is named. -/
def NamesNoEncoding (head : Dom.Element) : Prop :=
  ∀ e ∈ head.named "meta", entryKind? e.tag = none ∨
    (Markup.withEncoding e.tag).attr? "content" = e.tag.attr? "content"

instance (head : Dom.Element) : Decidable (NamesNoEncoding head) :=
  inferInstanceAs (Decidable (∀ e ∈ head.named "meta", entryKind? e.tag = none ∨
    (Markup.withEncoding e.tag).attr? "content" = e.tag.attr? "content"))

/-- An entry that names no encoding tells the same after it was written. -/
theorem tellsAlike_withEncoding (tag : Dom.Tag) (h : tag.name = "meta" → entryKind? tag = none ∨
    (Markup.withEncoding tag).attr? "content" = tag.attr? "content") :
    TellsAlike tag (Markup.withEncoding tag) := by
  by_cases hmeta : tag.name = "meta"
  -- Rewriting the encoding touches two attributes and leaves the others as they are.
  · have hkeep : ∀ name, name ≠ "charset" → name ≠ "content" →
        (Markup.withEncoding tag).text? name = tag.text? name := fun name hcharset hcontent => by
      rw [Dom.Tag.text?, Dom.Tag.text?, Markup.attr?_withEncoding tag name hcharset hcontent]
    have hkind : entryKind? (Markup.withEncoding tag) = entryKind? tag :=
      entryKind?_congr (hkeep "name" (by decide) (by decide))
        (hkeep "property" (by decide) (by decide))
    refine ⟨fun extended m => ?_, ?_⟩
    · unfold addEntry
      rw [hkind]
      rcases h hmeta with hnone | hsame
      · rw [hnone]
        cases (Markup.withEncoding tag).filled? "content" <;> cases tag.filled? "content" <;> rfl
      · rw [Dom.Tag.filled?, Dom.Tag.filled?, hsame]
    · rw [Dom.Tag.hasText, Dom.Tag.hasText,
        Markup.attr?_withEncoding tag "type" (by decide) (by decide)]
  · have hself : Markup.withEncoding tag = tag := by
      unfold Markup.withEncoding
      rw [if_neg hmeta]
    rw [hself]
    exact ⟨fun _ _ => rfl, rfl⟩

/-- Naming the encoding of written markup does not change the metadata of a head whose entries
    do not tell of it. -/
theorem extractMetadata_encodeElement (extended : Bool) (head : Dom.Element)
    (hname : head.name ≠ "meta") (h : NamesNoEncoding head) :
    (extractMetadata extended (Markup.encodeElement head)).result =
      (extractMetadata extended head).result := by
  refine extractMetadata_similar (Markup.mates_encodeElement [] head ?_ fun d hd => ?_) extended
  · exact tellsAlike_withEncoding head.tag fun hmeta => absurd hmeta hname
  · exact tellsAlike_withEncoding d.tag fun hmeta => h d (List.mem_filter.mpr ⟨hd, by
      rw [Dom.Element.name, hmeta]; rfl⟩)

end PageDistill
