import PageDistill.ConversionError
import PageDistill.Dom.Element
import PageDistill.Markdown.Node
import PageDistill.Url.ReferenceMap

/-!
# Options of a Conversion

What a caller can choose: where the content is looked for, what is kept of it,
how URLs are written, and four hooks that take over parts of the work.

A hook is shown the options it works for. It may decline by answering nothing, and
may fail, which ends the conversion. The two hooks on elements answer with nodes,
and the two hooks on nodes with Markdown.

Choices that were checked are a text as the domain and a whole number as the
limit. Without a check other values may stand there. They do nothing until they
are used. The wish for metadata is kept as it was given, since its users ask it
different questions.

`urlMap` is an answer rather than a choice: a conversion that shortens URLs
leaves its table of references there.

## Main definitions

* `MetadataChoice`: What was given as the wish for metadata.
* `Page`, `Reader`, `Readers`, `PageReader`: Pages, and where they come from.
* `Domain`: What is cut from URLs.
* `DepthLimit`: How deep the nesting may be.
* `Choices`: The choices that are data.
* `HookView`, `ElementHook`, `NodeHook`: The hooks, and what they are shown.
* `Options`: The choices and the hooks.

## Theorems

* `MetadataChoice.wanted_of_isExtended`: More metadata is metadata.
-/

namespace PageDistill

/-- What was given as the wish for metadata: data of any kind, or something that
    only a program can give. -/
inductive MetadataChoice where
  | value (v : Json.Value)
  | program

namespace MetadataChoice

/-- Whether front matter is wanted at all. Whatever is not empty asks for it. -/
def wanted : MetadataChoice → Bool
  | .value v => !v.isEmpty
  | .program => true

/-- Whether the entries for link previews and the structured data belong to it.
    Only one word asks for them. -/
def isExtended : MetadataChoice → Bool
  | .value (.string word) => word == "extended"
  | _ => false

/-- No front matter. -/
def off : MetadataChoice := .value (.bool false)

/-- The usual front matter. -/
def basic : MetadataChoice := .value (.string "basic")

/-- Front matter with link previews and structured data. -/
def extended : MetadataChoice := .value (.string "extended")

/-- Whoever asks for more asks for front matter. -/
theorem wanted_of_isExtended {choice : MetadataChoice} (h : choice.isExtended = true) :
    choice.wanted = true := by
  unfold isExtended at h
  split at h
  · rw [beq_iff_eq.mp h]
    rfl
  · exact nomatch h

end MetadataChoice

/-- A page that was read, and the way in which its elements are written out again. -/
structure Page where
  document : Dom.Document
  write : Dom.Element → String

/-- A reader of pages. It may refuse a text, for a reason of its own. -/
abbrev Reader := String → Except String Page

/-- The readers that are there: for a value that asks for a reader, that reader or the
    reason why there is none. -/
abbrev Readers := Json.Value → Except ReaderFault Reader

/-- Who is asked to read pages: a reader by its name, one by whatever else was given
    to find it, or one that the caller brings. -/
inductive PageReader where
  | named (name : String)
  | described (features : Json.Value)
  | custom (read : Reader)

/-- The reader that is asked to read pages, among those that are there. -/
def PageReader.find (readers : Readers) : PageReader → Except ReaderFault Reader
  | .named name => readers (.string name)
  | .described features => readers features
  | .custom read => .ok read

/-- What is cut from the front of URLs: a text, or a value that is none. -/
inductive Domain where
  | text (s : String)
  | notText (kind : Json.Kind)
  deriving DecidableEq, Repr

/-- How deep the nesting below the converted element may be: a whole number, a
    number with a fraction, or a value that no depth can be compared with. -/
inductive DepthLimit where
  | whole (n : Int)
  | fraction (x : Binary64)
  | unordered (kind : Json.Kind)
  deriving DecidableEq, Repr

namespace DepthLimit

/-- The greatest depth within a limit; nothing when every depth is within it. -/
def deepest? : DepthLimit → Option Int
  | .whole n => some n
  | .fraction (.infinite true) => some (-1)
  | .fraction x => x.floor?
  | .unordered _ => none

/-- A limit as a warning shows it, without its fraction. -/
def shown : DepthLimit → Int
  | .whole n => n
  | .fraction x => x.truncated?.getD 0
  | .unordered _ => 0

end DepthLimit

/-- The choices of a conversion that are data. -/
structure Choices where
  /-- What is cut from the front of link and image URLs. -/
  websiteDomain : Option Domain
  /-- Convert only the part of the page that holds its main content. -/
  extractMainContent : Bool
  /-- Replace long URLs by references. -/
  shortenUrls : Bool
  /-- The references of the last conversion that replaced URLs. -/
  urlMap : ReferenceMap
  /-- Note every decision. -/
  debug : Bool
  reader : PageReader
  /-- Mark each cell of a table with its column. -/
  trackTableColumns : Bool
  metadata : MetadataChoice
  /-- How deep below the converted element the structure is kept. -/
  maxDepth : DepthLimit

/-- What a hook is shown of the options that it works for: the choices, and which
    hooks are set. -/
structure HookView extends Choices where
  overridesElements : Bool
  handlesUnhandled : Bool
  overridesNodes : Bool
  rendersCustom : Bool

/-- What answers for the nodes of a page, asked with the node and the indent level.
    It answers with the nodes of the tree to use instead. -/
abbrev ElementRule := Dom.Node → Int → Except HookFault (Option (List Markdown.Node))

/-- What answers for the nodes of the tree, asked with the node and the indent
    level. It answers with the Markdown to use instead. -/
abbrev NodeRule := Markdown.Node → Int → Except HookFault (Option String)

/-- A hook on the nodes of a page. -/
abbrev ElementHook := HookView → ElementRule

/-- A hook on the nodes of the tree. -/
abbrev NodeHook := HookView → NodeRule

/-- The options of a conversion: its choices, and its hooks. -/
structure Options extends Choices where
  /-- Asked first for every node of the page. -/
  overrideElement : Option ElementHook
  /-- Asked for the elements that have no category. -/
  unhandledElement : Option ElementHook
  /-- Asked first for every node of the tree. -/
  overrideNode : Option NodeHook
  /-- Asked for the nodes that a hook on elements made up. -/
  renderCustom : Option NodeHook

namespace Options

/-- What the hooks are shown of some options. -/
def view (o : Options) : HookView :=
  { o.toChoices with
    overridesElements := o.overrideElement.isSome
    handlesUnhandled := o.unhandledElement.isSome
    overridesNodes := o.overrideNode.isSome
    rendersCustom := o.renderCustom.isSome }

/-- A hook that has been shown the options. -/
def shownTo {α : Type} (o : Options) (hook : Option (HookView → α)) : Option α :=
  hook.map fun ask => ask o.view

/-- A hook that is not set cannot be shown anything. -/
theorem shownTo_none {α : Type} (o : Options) :
    o.shownTo (none : Option (HookView → α)) = none := rfl

/-- The same options with another table of references. -/
def withReferences (o : Options) (refs : ReferenceMap) : Options := { o with urlMap := refs }

/-- The same options with another wish for metadata. -/
def withMetadata (o : Options) (choice : MetadataChoice) : Options := { o with metadata := choice }

/-- The choices of a caller who makes none. -/
def default : Options where
  websiteDomain := none
  extractMainContent := false
  shortenUrls := false
  urlMap := []
  debug := false
  reader := .named "lxml"
  trackTableColumns := false
  metadata := .off
  overrideElement := none
  unhandledElement := none
  overrideNode := none
  renderCustom := none
  maxDepth := .whole 256

end Options

end PageDistill
