import PageDistill.Lower
import PageDistill.MainContent.Detect
import PageDistill.Markdown.FrontMatter
import PageDistill.Url.Shorten

/-!
# Converting Pages

From the text of a page to Markdown.

A page is read, the element to convert is chosen, its children are lowered, URLs
are shortened if that is wanted, and the tree is rendered.

Without extraction the element is the body, or the whole `html` element when
metadata is wanted and the page has a head with contents, since the body does not
hold the head. With extraction it is the element that holds the main content. If
metadata is wanted then, and the element leaves the head behind, the head is
written out before the element and the two are read as a page of their own.

How pages are read and written is not decided here. A conversion takes the readers
that are there, each of which may refuse a text, and a page that was read says how
its elements are written.

A conversion answers with Markdown or an error, and it leaves the options with a
table of references. The table is a new one as soon as shortening has come to its
end, even if a hook refuses later; otherwise it is the one that was there.

The stages of a conversion descend into the page by calls one inside another, and a
machine has room for so many of them. Without room for those of an element a conversion
fails, before the tree of the element is made or after that.

## Main definitions

* `openPage`: Reading a page.
* `graft`: The markup of a head and an element.
* `contentElement`, `chosenElement`: The element to convert.
* `semanticTree`, `pageTree`: Its tree.
* `Outcome`, `finish`: What a conversion leaves.
* `convertElement`, `convertPage`: The conversions.
* `Machine`, `convertPageOn`: Conversions on a machine that may have no room for them.
-/

namespace PageDistill

open Markdown (Node)

/-- The page of a text, by the reader that was asked for. -/
def openPage (readers : Readers) (reader : PageReader) (html : String) : Conversion Page :=
  match reader.find readers with
  | .error fault => Traced.fail (.reader fault)
  | .ok read =>
    match read html with
    | .error reason => Traced.fail (.rejected reason)
    | .ok page => return page

/-- The first element of exactly the given name in a page. -/
def firstElement? (d : Dom.Document) (name : String) : Option Dom.Element := d.root.first? name

/-- The head of a page, if it has contents. -/
def filledHead? (d : Dom.Document) : Option Dom.Element :=
  match firstElement? d "head" with
  | some head => if head.nodes.isEmpty then none else some head
  | none => none

/-- The `html` element of a page, or the page itself. -/
def pageRoot (d : Dom.Document) : Dom.Element := (firstElement? d "html").getD d.root

/-- The markup of a page that holds a head and an element of another page. -/
def graft (page : Page) (head element : Dom.Element) : String :=
  "<html>" ++ page.write head ++ page.write element ++ "</html>"

/-- Whether an element leaves the head of its page behind. -/
def leavesHead (e : Dom.Element) : Bool := (e.first? "head").isNone && e.name != "html"

/-- The element of a page to convert. -/
def contentElement (readers : Readers) (o : Options) (page : Page) : Conversion Dom.Element :=
  let d := page.document
  let head? := if o.metadata.wanted then filledHead? d else none
  if o.extractMainContent then do
    let found ← MainContent.findMain d
    match head? with
    | some head =>
      if leavesHead found.element then
        return pageRoot (← openPage readers o.reader (graft page head found.element)).document
      else return found.element
    | none => return found.element
  else
    match head? with
    | some _ => return pageRoot d
    | none => return (firstElement? d "body").getD (pageRoot d)

/-- The tree of an element, with the references that its URLs need if they are
    shortened. -/
def semanticTree (o : Options) (e : Dom.Element) :
    Conversion (List Node × Option ReferenceMap) := do
  let nodes ← lower o 0 e
  if o.shortenUrls then
    let pass := Url.shortenAll [] nodes
    pass.outcome
    Traced.debug ("URL map holds " ++ String.ofList (Number.naturalText pass.refs.length) ++
      " entries")
    return (pass.nodes, some pass.refs)
  else return (nodes, none)

/-- What a conversion leaves: its answer, and the options afterwards. -/
structure Outcome where
  markdown : Conversion String
  options : Options

/-- The table of references that a conversion leaves. -/
def Outcome.urlMap (outcome : Outcome) : ReferenceMap := outcome.options.urlMap

/-- The options after a tree was made. New references take the place of the old
    ones, and nothing else changes. -/
def optionsAfter (o : Options) (tree : Conversion (List Node × Option ReferenceMap)) : Options :=
  match tree.result with
  | .ok (_, some refs) => o.withReferences refs
  | _ => o

/-- The outcome of rendering a tree, or of failing to make one. The hooks on nodes are
    shown the options as they are after the tree was made. -/
def finish (o : Options) (tree : Conversion (List Node × Option ReferenceMap)) : Outcome where
  markdown := do
    let (nodes, _) ← tree
    let text ← Traced.ofExcept (Markdown.renderPage (optionsAfter o tree) 0 nodes)
    return String.ofList text
  options := optionsAfter o tree

/-- Converts an element of a page. -/
def convertElement (o : Options) (e : Dom.Element) : Outcome := finish o (semanticTree o e)

/-- The element to convert of the page of a text. -/
def chosenElement (readers : Readers) (o : Options) (html : String) :
    Conversion Dom.Element := do
  contentElement readers o (← openPage readers o.reader html)

/-- The tree of the element to convert. -/
def pageTree (readers : Readers) (o : Options) (html : String) :
    Conversion (List Node × Option ReferenceMap) := do
  semanticTree o (← chosenElement readers o html)

/-- Converts the text of a page, with the readers that are there. -/
def convertPage (readers : Readers) (o : Options) (html : String) : Outcome :=
  finish o (pageTree readers o html)

/-- How far a machine comes with an element: not to its tree, to the tree but not to the
    text, or to the text. -/
inductive Reach where
  | nothing
  | tree
  | text
  deriving DecidableEq, Repr

/-- What a machine has for conversions: the readers of pages, and room for the calls that
    the conversion of an element makes one inside another, as far as it goes. -/
structure Machine where
  readers : Readers
  reach : Options → Dom.Element → Reach

/-- Converts the text of a page on a machine. -/
def convertPageOn (machine : Machine) (o : Options) (html : String) : Outcome :=
  let chosen := chosenElement machine.readers o html
  match chosen.result.map (machine.reach o) with
  | .ok .nothing => ⟨do let _ ← chosen; Traced.fail .tooNested, o⟩
  | .ok .tree =>
    let tree := pageTree machine.readers o html
    ⟨do let _ ← tree; Traced.fail .tooNested, optionsAfter o tree⟩
  | _ => convertPage machine.readers o html

end PageDistill
