import Mathlib.Data.List.Induction
import PageDistill.Metadata
import PageDistill.Proofs.Outcomes

/-!
# What Metadata Is Made Of

The tables of a head, each listed by the conditions on its tags.

Extraction goes over the tags of a head once and fills three tables as it goes, and what it asks
of a tag first decides what it asks next. Here every table has a listing of its own, which says
what it takes from a tag without a look at the other tables. A tag may carry a name and a
property: a property for a preview wins over the name, and then it counts nowhere else.

A table holds the keys of its listing in the order in which they first came up, each with the
value that came up last (`latest`). So the title of a page comes first if there is one, and an
entry of the name `title` changes its value and not its place.

Structured data is that of the blocks one after another. A block that is not JSON gives nothing
and is warned of once, and the others do not notice. A block with an integer of too many digits is
not left out: it ends the extraction (`extractMetadata_long_number`).

## Main definitions

* `Entries.latest`: The first places and the last values of a listing.
* `standardOf?`, `openGraphOf?`, `twitterOf?`: What each table takes from a tag.
* `listedMetadata`: The metadata of a head by its listings.
* `longNumber?`: The integer that is too long to be read in a block.

## Theorems

* `Entries.putAll_nil`: Putting entry after entry makes the table of the listing.
* `headEntries_eq`: The entries of a head are those of its listings.
* `extractMetadata_listed`: The metadata of a head in both modes.
* `extractMetadata_long_number`: A block that ends the extraction.
-/

namespace PageDistill

open Dom (AttrValue)

namespace Entries

variable {α : Type}

/-- A table with entries put into it one after another. -/
def putAll (table entries : List (String × α)) : List (String × α) :=
  entries.foldl (fun table entry => put table entry.1 entry.2) table

/-- The keys of some entries in the order in which they first come up, each with the value that
    comes up last. -/
def latest (entries : List (String × α)) : List (String × α) :=
  (entries.map Prod.fst).eraseDups.filterMap fun key =>
    (lookup? entries.reverse key).map fun value => (key, value)

theorem putAll_append (table front back : List (String × α)) :
    putAll table (front ++ back) = putAll (putAll table front) back :=
  List.foldl_append

/-- Tables with the same keys are the same if they have the same values. -/
theorem eq_of_lookup? {a b : List (String × α)} (hkeys : a.map Prod.fst = b.map Prod.fst)
    (hnodup : (a.map Prod.fst).Nodup) (h : ∀ key, lookup? a key = lookup? b key) : a = b := by
  induction a generalizing b with
  | nil => exact (List.map_eq_nil_iff.mp hkeys.symm).symm
  | cons entry rest ih =>
      cases b with
      | nil => exact absurd hkeys (List.cons_ne_nil _ _)
      | cons other others =>
          rcases entry with ⟨key, value⟩
          rcases other with ⟨key', value'⟩
          rw [List.map_cons, List.nodup_cons] at hnodup
          injection hkeys with hkey hrest
          change key = key' at hkey
          subst hkey
          -- Both begin with the same key, and looking it up gives the same value.
          have hvalue := h key
          rw [lookup?, if_pos rfl, lookup?, if_pos rfl, Option.some.injEq] at hvalue
          refine congrArg₂ List.cons (by rw [hvalue]) (ih hrest hnodup.2 fun other => ?_)
          by_cases hother : key = other
          · -- The first key comes up in neither of the rests.
            rw [← hother, lookup?_eq_none_of_not_mem rest key hnodup.1,
              lookup?_eq_none_of_not_mem others key (hrest ▸ hnodup.1)]
          · have hboth := h other
            rw [lookup?, if_neg hother, lookup?, if_neg hother] at hboth
            exact hboth

/-- A key is put at most once. -/
theorem nodup_put {entries : List (String × α)} (h : (entries.map Prod.fst).Nodup) (key : String)
    (value : α) : ((put entries key value).map Prod.fst).Nodup := by
  rw [map_fst_put]
  by_cases hmem : key ∈ entries.map Prod.fst
  · rw [if_pos hmem]
    exact h
  · rw [if_neg hmem, List.nodup_append]
    refine ⟨h, List.pairwise_singleton _ key, fun a ha b hb hab => hmem ?_⟩
    rw [← List.mem_singleton.mp hb, ← hab]
    exact ha

theorem lookup?_put (entries : List (String × α)) (key other : String) (value : α) :
    lookup? (put entries key value) other =
      if key = other then some value else lookup? entries other := by
  by_cases h : key = other
  · rw [if_pos h, ← h, lookup?_put_self]
  · rw [if_neg h, lookup?_put_of_ne entries key other value (Ne.symm h)]

/-- The last entry of a key is the first from behind. -/
theorem lookup?_reverse_concat (entries : List (String × α)) (key other : String) (value : α) :
    lookup? (entries ++ [(key, value)]).reverse other =
      if key = other then some value else lookup? entries.reverse other := by
  rw [List.reverse_append, List.reverse_singleton, List.singleton_append, lookup?]

theorem map_fst_latest (entries : List (String × α)) :
    (latest entries).map Prod.fst = (entries.map Prod.fst).eraseDups := by
  have hfound : ∀ key ∈ (entries.map Prod.fst).eraseDups,
      ((lookup? entries.reverse key).map fun value => (key, value)).map Prod.fst = some key := by
    intro key hkey
    rw [List.mem_eraseDups] at hkey
    cases hlookup : lookup? entries.reverse key with
    | none =>
        refine absurd ?_ (not_mem_of_lookup?_eq_none _ key hlookup)
        rw [List.map_reverse, List.mem_reverse]
        exact hkey
    | some value => rfl
  unfold latest
  rw [List.map_filterMap, List.filterMap_congr hfound, List.filterMap_some]

theorem lookup?_latest (entries : List (String × α)) (key : String) :
    lookup? (latest entries) key = lookup? entries.reverse key := by
  -- The value of a key does not depend on which other keys are listed.
  have hkeys : ∀ keys : List String,
      lookup? (keys.filterMap fun k => (lookup? entries.reverse k).map fun value => (k, value))
          key =
        if key ∈ keys then lookup? entries.reverse key else none := by
    intro keys
    induction keys with
    | nil => rfl
    | cons k rest ih =>
        cases hk : lookup? entries.reverse k with
        | none =>
            rw [List.filterMap_cons_none (by rw [hk]; rfl), ih]
            by_cases hsame : key = k
            · rw [hsame, hk, ite_self, ite_self]
            · simp only [List.mem_cons, hsame, false_or]
        | some value =>
            rw [List.filterMap_cons_some (by rw [hk]; rfl), lookup?, ih]
            by_cases hsame : k = key
            · rw [if_pos hsame, ← hsame, if_pos List.mem_cons_self, hk]
            · simp only [if_neg hsame, List.mem_cons, Ne.symm hsame, false_or]
  unfold latest
  rw [hkeys]
  by_cases hmem : key ∈ (entries.map Prod.fst).eraseDups
  · rw [if_pos hmem]
  · rw [if_neg hmem]
    cases hlookup : lookup? entries.reverse key with
    | none => rfl
    | some value =>
        -- A key with a value is the key of an entry, so it is listed.
        refine absurd (List.mem_eraseDups.mpr ?_) hmem
        have hentry := List.mem_reverse.mp (mem_of_lookup? _ key value hlookup)
        exact List.mem_map_of_mem hentry

/-- One more entry leaves the places as they are, or takes a new one at the end. -/
theorem latest_concat (entries : List (String × α)) (hnodup : ((latest entries).map Prod.fst).Nodup)
    (key : String) (value : α) :
    latest (entries ++ [(key, value)]) = put (latest entries) key value := by
  refine (eq_of_lookup? ?_ (nodup_put hnodup key value) fun other => ?_).symm
  · rw [map_fst_put, map_fst_latest, map_fst_latest, List.map_append, List.eraseDups_append]
    by_cases hmem : key ∈ entries.map Prod.fst
    · rw [if_pos (List.mem_eraseDups.mpr hmem)]
      simp [List.removeAll, hmem]
    · rw [if_neg (fun h => hmem (List.mem_eraseDups.mp h))]
      simp [List.removeAll, hmem, List.eraseDups_cons]
  · rw [lookup?_put, lookup?_latest, lookup?_latest, lookup?_reverse_concat]

/-- Putting entry after entry into an empty table keeps the first places and the last values. -/
theorem putAll_nil (entries : List (String × α)) : putAll [] entries = latest entries := by
  have h : (((latest entries).map Prod.fst).Nodup) ∧ putAll [] entries = latest entries := by
    -- From behind, since the entry that is put last is the one that counts.
    induction entries using List.reverseRecOn with
    | nil => exact ⟨List.nodup_nil, rfl⟩
    | append_singleton entries entry ih =>
        rcases entry with ⟨key, value⟩
        rw [latest_concat entries ih.1, putAll_append, ih.2]
        exact ⟨nodup_put ih.1 key value, rfl⟩
  exact h.2

end Entries

/-- What follows `og:` in the property of a tag. A tag that has it is for a link preview. -/
def Dom.Tag.openGraphKey? (tag : Dom.Tag) : Option String :=
  (tag.text? "property").bind (dropStart? "og:")

/-- What a tag adds to the entries of a page: its content under its name, unless its property is
    for a preview, or its name is for one or speaks to the browser. -/
def standardOf? (tag : Dom.Tag) : Option (String × AttrValue) := do
  let content ← tag.filled? "content"
  let name ← tag.text? "name"
  if tag.openGraphKey?.isSome || (dropStart? "twitter:" name).isSome ||
      browserEntries.contains name then
    none
  else
    some (name, content)

/-- What a tag adds to the previews by property: its content under what follows `og:`. -/
def openGraphOf? (tag : Dom.Tag) : Option (String × AttrValue) := do
  let content ← tag.filled? "content"
  let key ← tag.openGraphKey?
  some (key, content)

/-- What a tag adds to the previews by name: its content under what follows `twitter:`, unless its
    property is for a preview. -/
def twitterOf? (tag : Dom.Tag) : Option (String × AttrValue) := do
  let content ← tag.filled? "content"
  let name ← tag.text? "name"
  let key ← dropStart? "twitter:" name
  if tag.openGraphKey?.isSome then none else some (key, content)

/-- The entries of the titles of a head. -/
def titleEntries (head : Dom.Element) : List (String × AttrValue) :=
  (head.named "title").map fun title =>
    ("title", .text (String.ofList (Markdown.escape title.text)))

/-- The tags of a head that may hold an entry. -/
def entryTags (head : Dom.Element) : List Dom.Tag := (head.named "meta").map Dom.Element.tag

/-- The blocks of structured data in a head. -/
def dataBlocks (head : Dom.Element) : List Dom.Element :=
  (head.named "script").filter fun e => e.tag.hasText "type" structuredDataType

/-- The items of a block that is JSON. A list contributes its items. -/
def itemsOf (block : Dom.Element) : List Json.Value :=
  match Json.read (blockSource block) with
  | .ok (.array items) => items
  | .ok item => [item]
  | .error _ => []

/-- A block that is not JSON. -/
def isMalformed (block : Dom.Element) : Bool :=
  match Json.read (blockSource block) with
  | .error .malformed => true
  | _ => false

/-- The number of digits of an integer that is too long to be read in a block. -/
def longNumber? (block : Dom.Element) : Option Nat :=
  match Json.read (blockSource block) with
  | .error (.tooManyDigits count) => some count
  | _ => none

/-- What is noted for a block that is not JSON. -/
def malformedWarning : Note := ⟨.warning, "Skipping malformed JSON-LD block"⟩

/-- The metadata of a head by its listings. -/
def listedMetadata (extended : Bool) (head : Dom.Element) : Markdown.Metadata where
  standard := Entries.latest (titleEntries head ++ (entryTags head).filterMap standardOf?)
  openGraph := if extended then Entries.latest ((entryTags head).filterMap openGraphOf?) else []
  twitter := if extended then Entries.latest ((entryTags head).filterMap twitterOf?) else []
  jsonLd := if extended then some ((dataBlocks head).flatMap itemsOf) else none

open Entries (putAll)

/-- What a tag adds to a table, by where extraction finds that its entry belongs. -/
def entryOf? (kind : EntryKind) (tag : Dom.Tag) : Option (String × AttrValue) := do
  let content ← tag.filled? "content"
  let place ← entryKind? tag
  if place.1 = kind then some (place.2, content) else none

/-- Extraction finds an entry for a table exactly where the conditions of that table hold. -/
theorem listed_entryOf? (tag : Dom.Tag) :
    standardOf? tag = entryOf? .standard tag ∧
      openGraphOf? tag = entryOf? .openGraph tag ∧
      twitterOf? tag = entryOf? .twitter tag := by
  unfold standardOf? openGraphOf? twitterOf? entryOf? entryKind? Dom.Tag.openGraphKey?
  cases tag.filled? "content" with
  | none => exact ⟨rfl, rfl, rfl⟩
  | some content =>
      cases (tag.text? "property").bind (dropStart? "og:") with
      | some key => cases tag.text? "name" <;> simp
      | none =>
          cases tag.text? "name" with
          | none => simp
          | some name =>
              cases htwitter : dropStart? "twitter:" name with
              | some key => simp [htwitter]
              | none =>
                  by_cases hbrowser : name ∈ browserEntries <;> simp [htwitter, hbrowser]

open Entries (putAll)

/-- One tag adds to each table what the listing of that table says. -/
theorem addEntry_eq (extended : Bool) (m : Markdown.Metadata) (tag : Dom.Tag) :
    addEntry extended m tag =
      { m with
        standard := putAll m.standard (standardOf? tag).toList
        openGraph := if extended then putAll m.openGraph (openGraphOf? tag).toList
          else m.openGraph
        twitter := if extended then putAll m.twitter (twitterOf? tag).toList
          else m.twitter } := by
  rw [(listed_entryOf? tag).1, (listed_entryOf? tag).2.1, (listed_entryOf? tag).2.2]
  unfold addEntry entryOf?
  cases tag.filled? "content" with
  | none => cases extended <;> rfl
  | some content =>
      cases entryKind? tag with
      | none => cases extended <;> rfl
      | some place =>
          rcases place with ⟨_ | _ | _, key⟩ <;> cases extended <;> rfl

/-- Entries taken from tag after tag are put in a row. -/
theorem putAll_filterMap_cons {α : Type} (table : List (String × α))
    (select : Dom.Tag → Option (String × α)) (tag : Dom.Tag) (tags : List Dom.Tag) :
    putAll table ((tag :: tags).filterMap select) =
      putAll (putAll table (select tag).toList) (tags.filterMap select) := by
  cases h : select tag with
  | none =>
      rw [List.filterMap_cons_none h]
      rfl
  | some entry =>
      rw [List.filterMap_cons_some h]
      rfl

theorem foldl_addEntry (extended : Bool) (m : Markdown.Metadata) (tags : List Dom.Tag) :
    tags.foldl (addEntry extended) m =
      { m with
        standard := putAll m.standard (tags.filterMap standardOf?)
        openGraph := if extended then putAll m.openGraph (tags.filterMap openGraphOf?)
          else m.openGraph
        twitter := if extended then putAll m.twitter (tags.filterMap twitterOf?)
          else m.twitter } := by
  induction tags generalizing m with
  | nil => cases extended <;> rfl
  | cons tag tags ih =>
      rw [List.foldl_cons, ih, addEntry_eq]
      simp only [putAll_filterMap_cons]
      cases extended <;> rfl

/-- The title is an entry like others, and the first one. -/
theorem foldl_titles (m : Markdown.Metadata) (titles : List Dom.Element) :
    titles.foldl (fun (m : Markdown.Metadata) title =>
        { m with
          standard :=
            Entries.put m.standard "title" (.text (String.ofList (Markdown.escape title.text))) })
        m =
      { m with
        standard := putAll m.standard (titles.map fun title =>
          ("title", .text (String.ofList (Markdown.escape title.text)))) } := by
  induction titles generalizing m with
  | nil => rfl
  | cons title titles ih =>
      rw [List.foldl_cons, ih]
      rfl

/-- The entries of a head are those of its listings. -/
theorem headEntries_eq (extended : Bool) (head : Dom.Element) :
    headEntries extended head = { listedMetadata extended head with jsonLd := none } := by
  have hmetas : ∀ m, (head.named "meta").foldl (fun m e => addEntry extended m e.tag) m =
      (entryTags head).foldl (addEntry extended) m := fun m => List.foldl_map.symm
  unfold headEntries listedMetadata
  simp only [hmetas, foldl_titles, foldl_addEntry, Markdown.Metadata.empty]
  rw [← Entries.putAll_append]
  simp only [Entries.putAll_nil]
  rfl

/-- What one block comes to. -/
theorem result_blockItems (block : Dom.Element) :
    (blockItems block).result = match longNumber? block with
      | none => .ok (itemsOf block)
      | some count => .error (.tooManyDigits (some count)) := by
  unfold blockItems longNumber? itemsOf
  cases Json.read (blockSource block) with
  | error fault => cases fault <;> rfl
  | ok value => cases value <;> rfl

theorem log_blockItems (block : Dom.Element) :
    (blockItems block).log = if isMalformed block then [malformedWarning] else [] := by
  unfold blockItems isMalformed
  cases Json.read (blockSource block) with
  | error fault => cases fault <;> rfl
  | ok value => cases value <;> rfl

theorem malformed_of_long {block : Dom.Element} {count : Nat}
    (h : longNumber? block = some count) : isMalformed block = false := by
  unfold longNumber? at h
  unfold isMalformed
  cases hread : Json.read (blockSource block) with
  | ok value => rfl
  | error fault =>
      cases fault with
      | malformed =>
          rw [hread] at h
          exact absurd h.symm (Option.some_ne_none count)
      | tooManyDigits digits => rfl

/-- What is made of a result is not noted. -/
theorem log_bind_pure {ε α β : Type} (x : Traced ε α) (f : α → β) :
    (x >>= fun a => pure (f a)).log = x.log := by
  cases hr : x.result with
  | error e => rw [Traced.log_bind_error _ hr]
  | ok a =>
      rw [Traced.log_bind_ok x _ a hr]
      exact List.append_nil _

/-- Structured data is read up to the first integer that is too long: without one all blocks give
    their items, and each block that is not JSON is warned of on the way. -/
theorem collect_blockItems (blocks : List Dom.Element) :
    (Traced.collect blockItems blocks).result = (match blocks.findSome? longNumber? with
      | none => .ok (blocks.flatMap itemsOf)
      | some count => .error (.tooManyDigits (some count))) ∧
    (Traced.collect blockItems blocks).log = List.replicate
      ((blocks.takeWhile fun block => (longNumber? block).isNone).countP isMalformed)
      malformedWarning := by
  induction blocks with
  | nil => exact ⟨rfl, rfl⟩
  | cons block blocks ih =>
      have hresult := result_blockItems block
      have hlog := log_blockItems block
      rw [Traced.collect]
      cases hlong : longNumber? block with
      | some count =>
          -- Nothing behind the block is looked at, and the block itself is not warned of.
          rw [hlong] at hresult
          have hmalformed : isMalformed block = false := malformed_of_long hlong
          rw [Traced.result_bind, Traced.log_bind_error _ hresult, hresult, hlog, hmalformed,
            List.findSome?_cons, hlong, List.takeWhile_cons, hlong]
          exact ⟨rfl, rfl⟩
      | none =>
          rw [hlong] at hresult
          rw [Traced.result_bind, Traced.log_bind_ok _ _ _ hresult, hresult, hlog,
            List.findSome?_cons, hlong, List.takeWhile_cons, hlong]
          constructor
          · change (Traced.collect blockItems blocks >>= _).result = _
            rw [Traced.result_bind, ih.1]
            cases blocks.findSome? longNumber? <;> rfl
          · rw [log_bind_pure, ih.2, Option.isNone_none, if_pos rfl, List.countP_cons, Nat.add_comm,
              List.replicate_add]
            by_cases hmalformed : isMalformed block = true
            · rw [if_pos hmalformed, if_pos hmalformed]
              rfl
            · rw [if_neg hmalformed, if_neg hmalformed]
              rfl

/-- The metadata of a head is that of its listings, in both modes. In the extended mode every block
    that is not JSON is warned of once and left out, up to a block with an integer of too many
    digits, which ends the extraction. -/
theorem extractMetadata_listed (head : Dom.Element) :
    extractMetadata false head = ⟨[], .ok (listedMetadata false head)⟩ ∧
      (extractMetadata true head).result = (match (dataBlocks head).findSome? longNumber? with
        | none => .ok (listedMetadata true head)
        | some count => .error (.tooManyDigits (some count))) ∧
      (extractMetadata true head).log = List.replicate
        (((dataBlocks head).takeWhile fun block => (longNumber? block).isNone).countP isMalformed)
        malformedWarning := by
  -- The loop over the blocks ends as the search for a long number does, and warns on the way.
  have hdata := collect_blockItems (dataBlocks head)
  change (structuredData head).result = _ ∧ (structuredData head).log = _ at hdata
  refine ⟨?_, ?_, ?_⟩
  · unfold extractMetadata
    rw [if_neg Bool.false_ne_true, headEntries_eq]
    rfl
  · change (structuredData head >>= _).result = _
    rw [Traced.result_bind, hdata.1]
    cases (dataBlocks head).findSome? longNumber? with
    | some count => rfl
    | none =>
        rw [headEntries_eq]
        rfl
  · rw [← hdata.2]
    change (structuredData head >>= _).log = _
    exact log_bind_pure _ _

/-- A head with an integer of some digits for its structured data. -/
def numberHead (digits : Nat) : Dom.Element :=
  ⟨"html", .ordinary, ⟨"head", []⟩,
    [.element ⟨"script", [("type", .text "application/ld+json")]⟩
      [.text (String.ofList (List.replicate digits '1'))]]⟩

/-- The digits of an integer are counted before they are read. -/
theorem read_digits (n : Nat) (h : Number.mostDigits < n + 1) :
    Json.read (List.replicate (n + 1) '1') = .error (.tooManyDigits (n + 1)) := by
  have htake : (List.replicate n '1').takeWhile Char.isDigit = List.replicate n '1' := by
    rw [List.takeWhile_replicate, if_pos (by decide)]
  have hdrop : (List.replicate n '1').dropWhile Char.isDigit = [] := by
    rw [List.dropWhile_replicate, if_pos (by decide)]
  have hnumber : Json.readNumber false ('1' :: List.replicate n '1') =
      .error (.tooManyDigits (n + 1)) := by
    have hone : '1'.isDigit = true := by decide
    unfold Json.readNumber
    simp only [List.takeWhile_cons, List.dropWhile_cons, hone, if_true, htake, hdrop]
    simp [Json.readFraction, Json.readExponent, h]
  have hvalue : Json.readValue (n + 2) ('1' :: List.replicate n '1') =
      Json.readNumber false ('1' :: List.replicate n '1') := rfl
  have hblank : Json.skipBlank ('1' :: List.replicate n '1') = '1' :: List.replicate n '1' := rfl
  unfold Json.read
  rw [List.replicate_succ, hblank, List.length_cons, List.length_replicate, hvalue, hnumber]

/-- The one block of structured data of the head. -/
theorem extractMetadata_number (n : Nat) (h : Number.mostDigits < n + 1) :
    (extractMetadata true (numberHead (n + 1))).result =
      .error (.tooManyDigits (some (n + 1))) := by
  let block : Dom.Element := ⟨"head", .ordinary,
    ⟨"script", [("type", .text "application/ld+json")]⟩,
    [.text (String.ofList (List.replicate (n + 1) '1'))]⟩
  have hsource : blockSource block = List.replicate (n + 1) '1' := by
    have hne : String.ofList (List.replicate (n + 1) '1') ≠ "" := fun hempty => by
      simpa using congrArg String.toList hempty
    simp only [blockSource, block, soleString?, if_neg hne, String.toList_ofList]
  have hlong : longNumber? block = some (n + 1) := by
    unfold longNumber?
    rw [hsource, read_digits n h]
  have hdata := (collect_blockItems [block]).1
  rw [List.findSome?_cons, hlong] at hdata
  change (Traced.collect blockItems [block] >>= _).result = _
  rw [Traced.result_bind, hdata]
  rfl

/-- A head whose structured data is an integer of too many digits is told of in the basic mode, and
    ends the extraction in the extended mode. -/
theorem extractMetadata_long_number :
    (extractMetadata false (numberHead 4301)).result = .ok Markdown.Metadata.empty ∧
      (extractMetadata true (numberHead 4301)).result = .error (.tooManyDigits (some 4301)) := by
  exact ⟨rfl, extractMetadata_number 4300 (by decide)⟩

end PageDistill
