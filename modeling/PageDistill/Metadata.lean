import PageDistill.ConversionError
import PageDistill.Dom.Element
import PageDistill.Entries
import PageDistill.Json.Reader
import PageDistill.Markdown.Escape
import PageDistill.Markdown.Node

/-!
# Metadata of a Page

What the head of a page says about the page: its title, its named entries, the
entries for link previews, and its structured data.

An entry is a `meta` element with a content. Its key is its property when that
begins with `og:`, and its name otherwise; names that begin with `twitter:` are
previews too, and three names that speak to the browser are left out. Of entries
with one key the last counts, at the place of the first.

Link previews and structured data are taken only when they are wanted. A block
of structured data that is not JSON is skipped with a warning.

## Main definitions

* `EntryKind`: Where an entry belongs.
* `entryKind?`: The place and the key of a `meta` element.
* `addEntry`: Metadata with one more entry.
* `structuredData`: The structured data of a head.
* `extractMetadata`: All of it.
-/

namespace PageDistill

/-- The names of entries that speak to the browser and not about the page. -/
def browserEntries : List String := ["viewport", "referrer", "Content-Security-Policy"]

/-- The part of the metadata that an entry belongs to. -/
inductive EntryKind where
  | standard
  | openGraph
  | twitter
  deriving DecidableEq, Repr

/-- What follows a beginning of a text, if the text begins with it. -/
def dropStart? (start s : String) : Option String :=
  if start.toList.isPrefixOf s.toList then some (String.ofList (s.toList.drop start.toList.length))
  else none

/-- Where the entry of a tag belongs, and its key. -/
def entryKind? (tag : Dom.Tag) : Option (EntryKind × String) :=
  match (tag.text? "property").bind (dropStart? "og:") with
  | some key => some (.openGraph, key)
  | none =>
    match tag.text? "name" with
    | none => none
    | some name =>
      match dropStart? "twitter:" name with
      | some key => some (.twitter, key)
      | none => if browserEntries.contains name then none else some (.standard, name)

/-- The metadata with the entry of a tag added. A tag without a content adds
    nothing, and previews are added only when they are wanted. -/
def addEntry (extended : Bool) (m : Markdown.Metadata) (tag : Dom.Tag) : Markdown.Metadata :=
  match tag.filled? "content", entryKind? tag with
  | some content, some (.standard, key) =>
    { m with standard := Entries.put m.standard key content }
  | some content, some (.openGraph, key) =>
    if extended then { m with openGraph := Entries.put m.openGraph key content } else m
  | some content, some (.twitter, key) =>
    if extended then { m with twitter := Entries.put m.twitter key content } else m
  | _, _ => m

/-- The title and the entries of a head. -/
def headEntries (extended : Bool) (head : Dom.Element) : Markdown.Metadata :=
  let titled := (head.named "title").foldl
    (fun (m : Markdown.Metadata) title =>
      { m with
        standard :=
          Entries.put m.standard "title" (.text (String.ofList (Markdown.escape title.text))) })
    Markdown.Metadata.empty
  (head.named "meta").foldl (fun m e => addEntry extended m e.tag) titled

/-- The string that is all a node holds: itself, or that of its only child. -/
def soleString? : Dom.Node → Option String
  | .text content => some content
  | .special _ content => some content
  | .element _ [child] => soleString? child
  | .element _ _ => none

/-- The source of a block of structured data: the string that is all it holds,
    or what it says when there is no such string. -/
def blockSource (block : Dom.Element) : List Char :=
  match block.nodes with
  | [child] =>
    match soleString? child with
    | some source => if source = "" then block.text else source.toList
    | none => block.text
  | _ => block.text

/-- The type of a script that holds structured data. -/
def structuredDataType : String := "application/ld+json"

/-- The items of one block of structured data. A list contributes its items. A
    block that is not JSON is left out, but an integer of too many digits ends
    the conversion. -/
def blockItems (block : Dom.Element) : Conversion (List Json.Value) :=
  match Json.read (blockSource block) with
  | .error .malformed => do
    Traced.warn "Skipping malformed JSON-LD block"
    return []
  | .error (.tooManyDigits count) => Traced.fail (.tooManyDigits (some count))
  | .ok (.array items) => return items
  | .ok item => return [item]

/-- The structured data of a head, block after block. -/
def structuredData (head : Dom.Element) : Conversion (List Json.Value) :=
  Traced.collect blockItems
    ((head.named "script").filter fun e => e.tag.hasText "type" structuredDataType)

/-- The metadata of a head, with link previews and structured data if they are
    wanted. -/
def extractMetadata (extended : Bool) (head : Dom.Element) : Conversion Markdown.Metadata :=
  if extended then do
    let items ← structuredData head
    return { headEntries true head with jsonLd := some items }
  else
    return headEntries false head

end PageDistill
