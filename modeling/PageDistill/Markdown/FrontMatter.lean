import PageDistill.Entries
import PageDistill.Json.Writer
import PageDistill.Markdown.Render
import PageDistill.Markdown.Walk

/-!
# Front Matter

The block of metadata before the Markdown of a page, and the Markdown of a whole
page.

The block stands between lines of three hyphens. Each entry is on a line, with
its value between quotation marks. The extended block also lists the entries for
link previews under labels of their own, and for each item of structured data
its type and its members as JSON text.

The block is there whenever metadata is wanted, even when the tree holds none.

## Main definitions

* `quotedValue`: A value between quotation marks.
* `schemaLines`: The lines of an item of structured data.
* `metadataLines`: The lines of all metadata.
* `frontMatter`: The block.
* `renderPage`: Front matter and content.

## Theorems

* `frontMatter_unwanted`: There is no block when metadata is not wanted.
-/

namespace PageDistill

namespace Markdown

/-- A value between quotation marks, with a backslash before each inner one. -/
def quotedValue (value : String) : List Char :=
  '"' :: ((value.toList.flatMap fun c => if c = '"' then ['\\', '"'] else [c]) ++ ['"'])

/-- The lines of entries after some indent. -/
def entryLines (start : String) (entries : List (String × Dom.AttrValue)) : List (List Char) :=
  entries.map fun (key, value) =>
    start.toList ++ key.toList ++ ": ".toList ++ quotedValue value.display

/-- The entries under a label; no entries need no label. -/
def labelledLines (label : String) (entries : List (String × Dom.AttrValue)) : List (List Char) :=
  if entries.isEmpty then [] else (label.toList ++ [':']) :: entryLines "  " entries

/-- The members of an item of structured data. An item that is no object counts
    as an object with that one value. -/
def schemaMembers : Json.Value → List (String × Json.Value)
  | .object members => members
  | item => [("value", item)]

/-- The type of an item of structured data, in words. -/
def schemaType (members : List (String × Json.Value)) : List Char :=
  match Entries.lookup? members "@type" with
  | some value => if value.isEmpty then "(unknown type)".toList else value.display
  | none => "(unknown type)".toList

/-- The lines of an item of structured data: its type, then its other members. -/
def schemaLines (item : Json.Value) : List (List Char) :=
  let members := schemaMembers item
  let told := members.filter fun (key, _) => key != "@context" && key != "@type"
  ("  ".toList ++ schemaType members ++ [':']) ::
    told.map fun (key, value) => "    ".toList ++ key.toList ++ ": ".toList ++ value.write

/-- The lines for link previews and structured data. -/
def extendedLines (m : Metadata) : List (List Char) :=
  let items := m.jsonLd.getD []
  labelledLines "openGraph" m.openGraph ++ labelledLines "twitter" m.twitter ++
    if items.isEmpty then [] else "schema:".toList :: items.flatMap schemaLines

/-- The lines of metadata between the two rules. -/
def metadataLines (extended : Bool) (m : Metadata) : List (List Char) :=
  entryLines "" m.standard ++ if extended then extendedLines m else []

/-- The metadata that a node holds. -/
def Node.metadata? : Node → Option Metadata
  | .metadata m => some m
  | _ => none

/-- The metadata of a tree: that of the first node which holds any. -/
def metadataOf (nodes : List Node) : Metadata :=
  ((walk nodes).findSome? Node.metadata?).getD Metadata.empty

/-- The block before the Markdown of a page. -/
def frontMatter (choice : MetadataChoice) (nodes : List Node) : List Char :=
  if choice.wanted then
    let lines := "---".toList :: metadataLines choice.isExtended (metadataOf nodes)
    Text.joinWith ['\n'] lines ++ "\n---\n\n".toList
  else []

/-- There is no block when metadata is not wanted. -/
theorem frontMatter_unwanted {choice : MetadataChoice} (h : choice.wanted = false)
    (nodes : List Node) : frontMatter choice nodes = [] := by
  rw [frontMatter, h]
  rfl

/-- The Markdown of a tree with its front matter, trimmed at the end. -/
def renderPage (o : Options) (indent : Int) (nodes : List Node) : Rendering := do
  let content ← renderContent o indent nodes
  return Text.trimEnd (frontMatter o.metadata nodes ++ content)

end Markdown

end PageDistill
