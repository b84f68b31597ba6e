import PageDistill.Proofs.Json.OneLine
import PageDistill.Proofs.Markdown.QuotedValues

/-!
# The Lines of Front Matter

Which front matter can be read back line by line.

Front matter is made of lines: a rule, one line for each entry and each label, and another rule.
Some of what stands in these lines is written as it is in the page: the keys and the values of
entries, and the types and the keys of structured data (`pageTexts`). The values of structured
data are written as JSON text, which holds no line end. So the lines of the block are the lines
that were meant exactly if none of the texts of the page holds a line end, and a value of an entry
can be told from what follows it exactly if its backslashes escape nothing
(`frontMatter_wellFormed_iff`).

Text of the page that does hold a line end makes more lines of one, and may end the block before
its end (`frontMatter_ends_early`).

## Main definitions

* `rule`: The line before and after the block.
* `quotedEntries`, `toldItems`, `toldMembers`: The entries, items and members that are told.
* `pageTexts`: The texts that are written as they are.
* `lineCount`: The number of entries and labels.
* `ProperLines`, `FrontMatter`: Lines and a block as they should be.
* `entryText`, `MetadataLine`: What an entry is told by, and the forms of the lines that are meant.
* `blockLines`: These lines between two rules.

## Theorems

* `length_metadataLines`, `rule_not_mem_metadataLines`: The lines that are meant.
* `MetadataLine.of_mem`: Every line has one of the forms.
* `lineEnd_not_mem_metadataLines`, `exists_line_of_mem_pageTexts`: Line ends come from the texts of
  the page.
* `frontMatter_wellFormed_iff`: Which blocks are as they should be.
-/

namespace PageDistill

namespace Markdown

/-- The line before and after the block. -/
def rule : List Char := "---".toList

/-- The entries that have a line of their own. -/
def quotedEntries (extended : Bool) (m : Metadata) : List (String × Dom.AttrValue) :=
  m.standard ++ if extended then m.openGraph ++ m.twitter else []

/-- The members of an item of structured data that have a line of their own. -/
def toldMembers (item : Json.Value) : List (String × Json.Value) :=
  (schemaMembers item).filter fun (key, _) => key != "@context" && key != "@type"

/-- The items of structured data that are told. -/
def toldItems (extended : Bool) (m : Metadata) : List Json.Value :=
  if extended then m.jsonLd.getD [] else []

/-- The texts of an entry that are written as they are. -/
def entryTexts (entry : String × Dom.AttrValue) : List (List Char) :=
  [entry.1.toList, entry.2.display.toList]

/-- The texts of an item of structured data that are written as they are. -/
def schemaTexts (item : Json.Value) : List (List Char) :=
  schemaType (schemaMembers item) :: (toldMembers item).map fun (key, _) => key.toList

/-- The texts of metadata that are written as they are. -/
def pageTexts (extended : Bool) (m : Metadata) : List (List Char) :=
  (quotedEntries extended m).flatMap entryTexts ++ (toldItems extended m).flatMap schemaTexts

/-- The number of lines that entries under a label should take. -/
def labelledCount (entries : List (String × Dom.AttrValue)) : Nat :=
  if entries.isEmpty then 0 else 1 + entries.length

/-- The number of lines that items of structured data should take: one for the label, one for each
    item and one for each member that is told. -/
def schemaCount (items : List Json.Value) : Nat :=
  if items.isEmpty then 0 else 1 + items.length + (items.flatMap toldMembers).length

/-- The number of lines that metadata should take. -/
def lineCount (extended : Bool) (m : Metadata) : Nat :=
  m.standard.length +
    if extended then
      labelledCount m.openGraph + labelledCount m.twitter + schemaCount (m.jsonLd.getD [])
    else 0

/-- What an entry is told by: its key, and its value between quotation marks. -/
def entryText (entry : String × Dom.AttrValue) : List Char :=
  entry.1.toList ++ ": ".toList ++ quotedValue entry.2.display

/-- The lines of metadata as they should be: there is one for each entry and each label, and none
    of them is a rule. Every entry ends one of them, and its value stands between quotation marks
    that belong to it. -/
structure ProperLines (extended : Bool) (m : Metadata) (lines : List (List Char)) : Prop where
  length : lines.length = lineCount extended m
  apart : rule ∉ lines
  told : ∀ entry ∈ quotedEntries extended m, ∃ line ∈ lines, entryText entry <:+ line
  quoted : ∀ entry ∈ quotedEntries extended m, WellQuoted (quotedValue entry.2.display)

/-- A block as it should be: its lines stand between two rules. -/
def FrontMatter (extended : Bool) (m : Metadata) (block : List Char) : Prop :=
  ∃ lines, Text.splitOn '\n' block = rule :: (lines ++ [rule, [], []]) ∧
    ProperLines extended m lines

theorem schemaLines_eq (item : Json.Value) :
    schemaLines item = ("  ".toList ++ schemaType (schemaMembers item) ++ [':']) ::
      (toldMembers item).map fun (key, value) =>
        "    ".toList ++ key.toList ++ ": ".toList ++ value.write := rfl

/-- A text has one piece more than places where it is cut. -/
theorem length_splitOn (c : Char) (s : List Char) :
    (Text.splitOn c s).length = s.count c + 1 := by
  induction s with
  | nil => rfl
  | cons d rest ih =>
      unfold Text.splitOn
      by_cases hd : d = c
      · rw [if_pos hd, List.length_cons, ih, hd, List.count_cons_self]
      · rw [if_neg hd, List.count_cons_of_ne hd, ← ih]
        cases hpieces : Text.splitOn c rest with
        | nil => exact absurd hpieces (Text.splitOn_ne_nil c rest)
        | cons piece pieces => rfl

/-- What joins pieces occurs between them and in them. -/
theorem count_joinWith (c : Char) (piece : List Char) (pieces : List (List Char)) :
    (Text.joinWith [c] (piece :: pieces)).count c =
      (piece :: pieces).flatten.count c + pieces.length := by
  induction pieces generalizing piece with
  | nil => simp [Text.joinWith]
  | cons next others ih =>
      rw [Text.joinWith_cons_cons, List.count_append, ih next]
      simp only [List.flatten_cons, List.count_append, List.count_singleton_self, List.length_cons]
      omega

theorem joinWith_append (sep a b : List Char) (before after : List (List Char)) :
    Text.joinWith sep (a :: before ++ b :: after) =
      Text.joinWith sep (a :: before) ++ sep ++ Text.joinWith sep (b :: after) := by
  induction before generalizing a with
  | nil => exact Text.joinWith_cons_cons sep a b after
  | cons next before ih =>
      rw [List.cons_append, List.cons_append, Text.joinWith_cons_cons, ← List.cons_append, ih,
        Text.joinWith_cons_cons]
      simp only [List.append_assoc]

/-- The entries under a label. -/
theorem length_labelledLines (label : String) (entries : List (String × Dom.AttrValue)) :
    (labelledLines label entries).length = labelledCount entries := by
  unfold labelledLines labelledCount entryLines
  by_cases hempty : entries.isEmpty = true
  · rw [if_pos hempty, if_pos hempty]
    rfl
  · rw [if_neg hempty, if_neg hempty, List.length_cons, List.length_map, Nat.add_comm]

theorem length_schemaItems (items : List Json.Value) :
    (if items.isEmpty then [] else "schema:".toList :: items.flatMap schemaLines).length =
      schemaCount items := by
  have hlines : (items.flatMap schemaLines).length =
      items.length + (items.flatMap toldMembers).length := by
    induction items with
    | nil => rfl
    | cons item items ih =>
        simp only [List.flatMap_cons, List.length_append, ih, schemaLines_eq, List.length_cons,
          List.length_map]
        omega
  unfold schemaCount
  by_cases hempty : items.isEmpty = true
  · rw [if_pos hempty, if_pos hempty]
    rfl
  · rw [if_neg hempty, if_neg hempty, List.length_cons, hlines]
    omega

/-- Every entry and every label takes one line of those that are meant. -/
theorem length_metadataLines (extended : Bool) (m : Metadata) :
    (metadataLines extended m).length = lineCount extended m := by
  have hstandard : (entryLines "" m.standard).length = m.standard.length := List.length_map _
  unfold metadataLines lineCount
  cases extended with
  | false => rw [List.length_append, hstandard]; rfl
  | true =>
      simp only [if_true, extendedLines, List.length_append, hstandard, length_labelledLines,
        length_schemaItems]

/-- The lines that are meant, one form for each kind. -/
inductive MetadataLine (extended : Bool) (m : Metadata) : List Char → Prop where
  | entry (start : String) (hstart : start = "" ∨ start = "  ") (entry : String × Dom.AttrValue)
      (h : entry ∈ quotedEntries extended m) :
      MetadataLine extended m (start.toList ++ entryText entry)
  | label (label : String) (h : label = "openGraph" ∨ label = "twitter" ∨ label = "schema") :
      MetadataLine extended m (label.toList ++ [':'])
  | type (item : Json.Value) (h : item ∈ toldItems extended m) :
      MetadataLine extended m ("  ".toList ++ schemaType (schemaMembers item) ++ [':'])
  | member (item : Json.Value) (h : item ∈ toldItems extended m) (key : String) (value : Json.Value)
      (hmember : (key, value) ∈ toldMembers item) :
      MetadataLine extended m ("    ".toList ++ key.toList ++ ": ".toList ++ value.write)

section

variable {extended : Bool} {m : Metadata}

theorem MetadataLine.of_mem_labelledLines {label : String} {entries : List (String × Dom.AttrValue)}
    (hlabel : label = "openGraph" ∨ label = "twitter" ∨ label = "schema")
    (hentries : entries ⊆ quotedEntries extended m) :
    ∀ line ∈ labelledLines label entries, MetadataLine extended m line := by
  intro line hline
  unfold labelledLines at hline
  by_cases hempty : entries.isEmpty = true
  · rw [if_pos hempty] at hline
    exact absurd hline List.not_mem_nil
  · rw [if_neg hempty] at hline
    rcases List.mem_cons.mp hline with rfl | hline
    · exact .label label hlabel
    · rcases List.mem_map.mp hline with ⟨entry, hentry, rfl⟩
      exact .entry "  " (Or.inr rfl) entry (hentries hentry)

theorem MetadataLine.of_mem_schemaLines {item : Json.Value} (hitem : item ∈ toldItems extended m) :
    ∀ line ∈ schemaLines item, MetadataLine extended m line := by
  rw [schemaLines_eq]
  refine List.forall_mem_cons.mpr ⟨.type item hitem, fun line hline => ?_⟩
  rcases List.mem_map.mp hline with ⟨⟨key, value⟩, hmember, rfl⟩
  exact .member item hitem key value hmember

/-- Every line of metadata has one of the forms. -/
theorem MetadataLine.of_mem : ∀ line ∈ metadataLines extended m, MetadataLine extended m line := by
  intro line hline
  unfold metadataLines at hline
  -- First come the standard entries, then the two labelled blocks, then the schema.
  rcases List.mem_append.mp hline with hline | hline
  · rcases List.mem_map.mp hline with ⟨entry, hentry, rfl⟩
    exact .entry "" (Or.inl rfl) entry (List.mem_append_left _ hentry)
  · cases extended with
    | false => exact absurd hline List.not_mem_nil
    | true =>
        simp only [if_true, extendedLines] at hline
        rcases List.mem_append.mp hline with hline | hline
        · rcases List.mem_append.mp hline with hline | hline
          · refine of_mem_labelledLines (Or.inl rfl) (fun entry hentry => ?_) line hline
            exact List.mem_append_right _ (List.mem_append_left _ hentry)
          · refine of_mem_labelledLines (Or.inr (Or.inl rfl)) (fun entry hentry => ?_) line hline
            exact List.mem_append_right _ (List.mem_append_right _ hentry)
        · by_cases hempty : (m.jsonLd.getD []).isEmpty = true
          · rw [if_pos hempty] at hline
            exact absurd hline List.not_mem_nil
          · rw [if_neg hempty] at hline
            rcases List.mem_cons.mp hline with rfl | hline
            · exact .label "schema" (Or.inr (Or.inr rfl))
            · rcases List.mem_flatMap.mp hline with ⟨item, hitem, hline⟩
              exact of_mem_schemaLines hitem line hline

/-- None of the lines that are meant is a rule: a label and a key have a colon behind them. -/
theorem rule_not_mem_metadataLines : rule ∉ metadataLines extended m := by
  intro hrule
  have hcolon : ∀ line, MetadataLine extended m line → ':' ∈ line := by
    intro line hline
    cases hline <;> simp [entryText]
  exact absurd (hcolon rule (MetadataLine.of_mem rule hrule)) (by decide)

/-- Line ends in the lines that are meant come from the texts of the page. -/
theorem lineEnd_not_mem_metadataLines (h : ∀ text ∈ pageTexts extended m, '\n' ∉ text) :
    ∀ line ∈ metadataLines extended m, '\n' ∉ line := by
  intro line hline
  cases MetadataLine.of_mem line hline with
  | entry start hstart entry hentry =>
      have hkey : '\n' ∉ entry.1.toList := h _ (List.mem_append_left _
        (List.mem_flatMap.mpr ⟨entry, hentry, List.mem_cons_self⟩))
      have hvalue : '\n' ∉ entry.2.display.toList := h _ (List.mem_append_left _
        (List.mem_flatMap.mpr ⟨entry, hentry, List.mem_cons_of_mem _ List.mem_cons_self⟩))
      -- Quoting adds no line end to a value.
      have hquoted : '\n' ∉ quotedValue entry.2.display := fun hmem =>
        hvalue (mem_of_mem_quotedValue (by decide) (by decide) hmem)
      rcases hstart with rfl | rfl <;> simp [entryText, hkey, hquoted]
  | label label hlabel => rcases hlabel with rfl | rfl | rfl <;> decide
  | type item hitem =>
      -- What a schema tells is written as JSON, which has no line end in it.
      have htype : '\n' ∉ schemaType (schemaMembers item) := h _ (List.mem_append_right _
        (List.mem_flatMap.mpr ⟨item, hitem, List.mem_cons_self⟩))
      simp [htype]
  | member item hitem key value hmember =>
      have hkey : '\n' ∉ key.toList := h _ (List.mem_append_right _ (List.mem_flatMap.mpr
        ⟨item, hitem, List.mem_cons_of_mem _ (List.mem_map.mpr ⟨(key, value), hmember, rfl⟩)⟩))
      simp [hkey, value.lineEnd_not_mem_write]

/-- Every entry has a line, which may begin with blank space. -/
theorem entryLine_mem {entry : String × Dom.AttrValue} (h : entry ∈ quotedEntries extended m) :
    ∃ start, start ++ entryText entry ∈ metadataLines extended m := by
  -- An entry of a labelled block is indented below the label.
  have hlabelled : ∀ (label : String) (entries : List (String × Dom.AttrValue)),
      entry ∈ entries → "  ".toList ++ entryText entry ∈ labelledLines label entries := by
    intro label entries hentry
    unfold labelledLines
    rw [if_neg fun hempty => List.ne_nil_of_mem hentry (List.isEmpty_iff.mp hempty)]
    exact List.mem_cons_of_mem _ (List.mem_map.mpr ⟨entry, hentry, rfl⟩)
  unfold metadataLines
  rcases List.mem_append.mp h with hentry | hentry
  · exact ⟨[], List.mem_append_left _ (List.mem_map.mpr ⟨entry, hentry, rfl⟩)⟩
  · cases extended with
    | false => exact absurd hentry List.not_mem_nil
    | true =>
        refine ⟨"  ".toList, List.mem_append_right _ (List.mem_append_left _ ?_)⟩
        rcases List.mem_append.mp hentry with hentry | hentry
        · exact List.mem_append_left _ (hlabelled _ _ hentry)
        · exact List.mem_append_right _ (hlabelled _ _ hentry)

theorem schemaLines_subset {item : Json.Value} (h : item ∈ toldItems extended m) :
    schemaLines item ⊆ metadataLines extended m := by
  intro line hline
  cases extended with
  | false => exact absurd h List.not_mem_nil
  | true =>
      refine List.mem_append_right _ (List.mem_append_right _ ?_)
      have hempty : ¬(m.jsonLd.getD []).isEmpty = true := fun hempty =>
        List.ne_nil_of_mem h (List.isEmpty_iff.mp hempty)
      simp only [if_neg hempty]
      exact List.mem_cons_of_mem _ (List.mem_flatMap.mpr ⟨item, h, hline⟩)

/-- Every text of the page stands in a line. -/
theorem exists_line_of_mem_pageTexts :
    ∀ text ∈ pageTexts extended m, ∃ line ∈ metadataLines extended m, text ⊆ line := by
  intro text htext
  -- A text of an entry is in the line of that entry, and a text of a schema in one of its lines.
  rcases List.mem_append.mp htext with htext | htext
  · rcases List.mem_flatMap.mp htext with ⟨entry, hentry, htext⟩
    rcases entryLine_mem hentry with ⟨start, hline⟩
    refine ⟨_, hline, fun c hc => List.mem_append_right start ?_⟩
    unfold entryText
    rcases List.mem_cons.mp htext with rfl | htext
    · simp [hc]
    · rw [List.mem_singleton.mp htext] at hc
      exact List.mem_append_right _ (mem_quotedValue_of_mem hc)
  · rcases List.mem_flatMap.mp htext with ⟨item, hitem, htext⟩
    have hlines := schemaLines_subset hitem
    rw [schemaLines_eq] at hlines
    rcases List.mem_cons.mp htext with rfl | htext
    · exact ⟨_, hlines List.mem_cons_self, fun c hc => by simp [hc]⟩
    · rcases List.mem_map.mp htext with ⟨⟨key, value⟩, hmember, rfl⟩
      exact ⟨_, hlines (List.mem_cons_of_mem _ (List.mem_map.mpr ⟨(key, value), hmember, rfl⟩)),
        fun c hc => by simp [hc]⟩

end

/-- The lines that are joined to a block: the rules around the metadata, an empty line, and what
    stands before the content. -/
def blockLines (extended : Bool) (m : Metadata) : List (List Char) :=
  rule :: (metadataLines extended m ++ [rule, [], []])

theorem frontMatter_eq {mode : MetadataChoice} (hmode : mode.wanted = true) (nodes : List Node) :
    frontMatter mode nodes =
      Text.joinWith ['\n'] (blockLines mode.isExtended (metadataOf nodes)) := by
  unfold frontMatter blockLines
  rw [if_pos hmode, ← List.cons_append, joinWith_append, List.append_assoc]
  rfl

/-- Front matter is as it should be exactly if no key, value or type that comes from the page holds
    a line end, and the backslashes of no value escape a quotation mark. -/
theorem frontMatter_wellFormed_iff (mode : MetadataChoice) (hmode : mode.wanted = true)
    (nodes : List Node) :
    FrontMatter mode.isExtended (metadataOf nodes) (frontMatter mode nodes) ↔
      (∀ text ∈ pageTexts mode.isExtended (metadataOf nodes), '\n' ∉ text) ∧
        ∀ entry ∈ quotedEntries mode.isExtended (metadataOf nodes),
          Quotable entry.2.display.toList := by
  generalize hm : metadataOf nodes = m
  generalize hextended : mode.isExtended = extended
  have hblock : frontMatter mode nodes = Text.joinWith ['\n'] (blockLines extended m) := by
    rw [frontMatter_eq hmode, hm, hextended]
  rw [hblock]
  constructor
  · rintro ⟨lines, hlines, hproper⟩
    refine ⟨fun text htext hend => ?_, fun entry hentry =>
      (wellQuoted_quotedValue_iff _).mp (hproper.quoted entry hentry)⟩
    -- Each line end in a line would make one line too many.
    have hnone : (blockLines extended m).flatten.count '\n' = 0 := by
      have hcount := length_splitOn '\n' (Text.joinWith ['\n'] (blockLines extended m))
      rw [hlines] at hcount
      unfold blockLines at hcount ⊢
      rw [count_joinWith] at hcount
      simp only [List.length_cons, List.length_append, List.length_nil, hproper.length,
        length_metadataLines] at hcount
      omega
    rcases exists_line_of_mem_pageTexts text htext with ⟨line, hline, hsub⟩
    refine List.count_eq_zero.mp hnone (List.mem_flatten.mpr ⟨line, ?_, hsub hend⟩)
    exact List.mem_cons_of_mem _ (List.mem_append_left _ hline)
  · rintro ⟨htexts, hvalues⟩
    have hproper : ProperLines extended m (metadataLines extended m) :=
      { length := length_metadataLines extended m
        apart := rule_not_mem_metadataLines
        told := fun entry hentry =>
          let ⟨start, hline⟩ := entryLine_mem hentry
          ⟨start ++ entryText entry, hline, List.suffix_append start _⟩
        quoted := fun entry hentry => (wellQuoted_quotedValue_iff _).mpr (hvalues entry hentry) }
    refine ⟨metadataLines extended m, Text.splitOn_joinWith _ _ (List.cons_ne_nil _ _) ?_, hproper⟩
    exact List.forall_mem_cons.mpr ⟨by decide, List.forall_mem_append.mpr
      ⟨lineEnd_not_mem_metadataLines htexts, by decide⟩⟩

/-- Marks and backslashes in values, link previews and structured data with a line end in a
    string. -/
theorem frontMatter_wellFormed_extended :
    let m : Metadata :=
      ⟨[("title", .text "Say \"hi\""), ("path", .text "C:\\dir")], [("title", .text "OG")], [],
        some [.object [("@type", .string "Article"), ("headline", .string "a\n---\nb")]]⟩
    MetadataChoice.extended.wanted = true ∧ (∀ text ∈ pageTexts true m, '\n' ∉ text) ∧
      (∀ entry ∈ quotedEntries true m, Quotable entry.2.display.toList) ∧
      FrontMatter true m (frontMatter .extended [.text "x", .metadata m]) := by
  intro m
  have htexts : ∀ text ∈ pageTexts true m, '\n' ∉ text := by decide
  have hvalues : ∀ entry ∈ quotedEntries true m, Quotable entry.2.display.toList := by decide
  exact ⟨rfl, htexts, hvalues,
    (frontMatter_wellFormed_iff .extended rfl [.text "x", .metadata m]).mpr ⟨htexts, hvalues⟩⟩

/-- A backslash in front of a mark in a value takes its escape away, and a value with a line end in
    it takes more than one line, one of which is a rule. -/
theorem frontMatter_ends_early :
    let marked : Metadata := ⟨[("k", .text "a\\\"b")], [], [], none⟩
    let ruled : Metadata := ⟨[("k", .text "a\n---\nb")], [], [], none⟩
    frontMatter .basic [.metadata marked] = "---\nk: \"a\\\\\"b\"\n---\n\n".toList ∧
      ¬FrontMatter false marked (frontMatter .basic [.metadata marked]) ∧
      frontMatter .basic [.metadata ruled] = "---\nk: \"a\n---\nb\"\n---\n\n".toList ∧
      ¬FrontMatter false ruled (frontMatter .basic [.metadata ruled]) := by
  intro marked ruled
  have hmarked : ¬Quotable "a\\\"b".toList := by decide
  have hruled : (Text.splitOn '\n' (frontMatter .basic [.metadata ruled])).length = 7 := by decide
  refine ⟨by decide, fun h => ?_, by decide, fun h => ?_⟩
  · rcases h with ⟨_, _, hproper⟩
    exact hmarked ((wellQuoted_quotedValue_iff _).mp (hproper.quoted _ List.mem_cons_self))
  · rcases h with ⟨lines, hlines, hproper⟩
    rw [hlines] at hruled
    simp [hproper.length] at hruled
    exact absurd hruled (by decide)

end Markdown

end PageDistill
