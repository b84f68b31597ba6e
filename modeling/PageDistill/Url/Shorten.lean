import PageDistill.ConversionError
import PageDistill.Markdown.Walk
import PageDistill.Text.Fold
import PageDistill.Url.Parts
import PageDistill.Url.ReferenceMap

/-!
# Shortening URLs

Long web URLs of a tree are replaced by references into a map.

A URL of a media file keeps its file name: the directory before it is interned,
and the URL becomes the directory's token, `://` and the name. Whether it is a
media file is decided on the path of the URL, and the cut is made at the last
slash of the whole URL. Any other URL of more than four parts between slashes
is interned as a whole. All other URLs stay.

The links, images and videos of a tree are gone through in the order of a walk.
A URL whose authority cannot be read ends the pass, and so does a video with a
list in the place of its URL: what comes after it stays as it was, and the
references made so far remain.

## Main definitions

* `mediaSuffixes`: The suffixes of media files.
* `PassFault`, `Shortening`: Why a pass ends early, and its state.
* `shortenUrl`: One URL.
* `shorten`: A tree.
* `shortenAll`: A whole pass with its outcome.

## Theorems

* `shortenAll_nodes`, `shortenAll_refs`: A pass leaves what the recursion leaves, however it ends.
-/

namespace PageDistill

namespace Url

/-- The suffixes of files whose name is kept: pictures, films, sound, documents,
    and the parts of web pages. -/
def mediaSuffixes : List String :=
  ["jpeg", "jpg", "png", "gif", "bmp", "tiff", "tif", "svg", "webp", "ico",
    "avi", "mov", "mp4", "mkv", "flv", "wmv", "webm", "mpeg", "mpg",
    "mp3", "wav", "aac", "ogg", "flac", "m4a",
    "pdf", "doc", "docx", "ppt", "pptx", "xls", "xlsx", "txt",
    "css", "js", "xml", "json", "html", "htm"]

/-- Whether a path is that of a media file. -/
def isMediaPath (path : List Char) : Bool :=
  mediaSuffixes.contains (String.ofList (Text.fold (fileSuffix path)))

/-- The most parts between slashes of a URL that is not interned. -/
def mostParts : Nat := 4

/-- One web URL with a given path in terms of a map, and the map with the
    references that it needs. -/
def refer (refs : ReferenceMap) (url path : List Char) : String × ReferenceMap :=
  if isMediaPath path then
    match cutAtLast '/' url with
    | (directory, leaf) =>
      let (token, refs) := refs.intern (String.ofList (directory.getD []))
      (String.ofList (token.toList ++ "://".toList ++ leaf), refs)
  else if mostParts < (Text.splitOn '/' url).length then refs.intern (String.ofList url)
  else (String.ofList url, refs)

/-- Why a pass ends early. -/
inductive PassFault where
  /-- A URL cannot be read. -/
  | badUrl (fault : Fault)
  /-- A list stands where a URL should be. -/
  | urlIsList
  deriving DecidableEq, Repr

/-- The state of a pass: the references made so far, and the fault that ended
    it. -/
structure Shortening where
  refs : ReferenceMap
  fault : Option PassFault
  deriving DecidableEq, Repr

/-- One URL during a pass. After a fault URLs stay as they are. -/
def shortenUrl (state : Shortening) (url : String) : String × Shortening :=
  if state.fault.isSome ∨ !isWebUrl url.toList then (url, state)
  else
    match path? url.toList with
    | .error fault => (url, { state with fault := some (.badUrl fault) })
    | .ok path =>
      let (url, refs) := refer state.refs url.toList path
      (url, { state with refs })

/-- The URL of a video during a pass. -/
def shortenSource (state : Shortening) : Dom.AttrValue → Dom.AttrValue × Shortening
  | .text url =>
    let (url, state) := shortenUrl state url
    (.text url, state)
  | .list items =>
    (.list items, if state.fault.isSome then state else { state with fault := some .urlIsList })

mutual

/-- A node during a pass, and the state after it. -/
def shortenNode (state : Shortening) : Markdown.Node → Markdown.Node × Shortening
  | .emphasis style content =>
    let (content, state) := shorten state content
    (.emphasis style content, state)
  | .link href content =>
    let (href, state) := shortenUrl state href
    let (content, state) := shorten state content
    (.link href content, state)
  | .heading level content =>
    let (content, state) := shorten state content
    (.heading level content, state)
  | .image src alt =>
    let (src, state) := shortenUrl state src
    (.image src alt, state)
  | .video src poster controls =>
    let (src, state) := shortenSource state src
    (.video src poster controls, state)
  | .list ordered items =>
    let (items, state) := shortenItems state items
    (.list ordered items, state)
  | .table rows colIds =>
    let (rows, state) := shortenRows state rows
    (.table rows colIds, state)
  | .quote content =>
    let (content, state) := shorten state content
    (.quote content, state)
  | .semantic element content =>
    let (content, state) := shorten state content
    (.semantic element content, state)
  | .listItem content =>
    let (content, state) := shorten state content
    (.listItem content, state)
  | node => (node, state)

/-- A list of nodes during a pass, and the state after it. -/
def shorten (state : Shortening) : List Markdown.Node → List Markdown.Node × Shortening
  | [] => ([], state)
  | node :: nodes =>
    let (node, state) := shortenNode state node
    let (nodes, state) := shorten state nodes
    (node :: nodes, state)

/-- The contents of items during a pass, and the state after it. -/
def shortenItems (state : Shortening) :
    List (List Markdown.Node) → List (List Markdown.Node) × Shortening
  | [] => ([], state)
  | item :: items =>
    let (item, state) := shorten state item
    let (items, state) := shortenItems state items
    (item :: items, state)

/-- The rows of a table during a pass, and the state after it. -/
def shortenRows (state : Shortening) :
    List (List Markdown.Cell) → List (List Markdown.Cell) × Shortening
  | [] => ([], state)
  | row :: rows =>
    let (row, state) := shortenRow state row
    let (rows, state) := shortenRows state rows
    (row :: rows, state)

/-- The cells of a row during a pass, and the state after it. -/
def shortenRow (state : Shortening) : List Markdown.Cell → List Markdown.Cell × Shortening
  | [] => ([], state)
  | .plain text marks :: cells =>
    let (cells, state) := shortenRow state cells
    (.plain text marks :: cells, state)
  | .rich content marks :: cells =>
    let (content, state) := shorten state content
    let (cells, state) := shortenRow state cells
    (.rich content marks :: cells, state)

end

/-- A whole pass over a tree, starting from a map: the tree and the map after
    it, and whether it came to its end. -/
structure Pass where
  nodes : List Markdown.Node
  refs : ReferenceMap
  outcome : Conversion Unit

/-- Shortens the URLs of a tree. A pass that comes to its end notes how many
    references there are. -/
def shortenAll (refs : ReferenceMap) (nodes : List Markdown.Node) : Pass :=
  match shorten ⟨refs, none⟩ nodes with
  | (nodes, state) =>
    match state.fault with
    | some (.badUrl fault) => ⟨nodes, state.refs, .fail (.badUrl fault)⟩
    | some .urlIsList => ⟨nodes, state.refs, .fail .urlIsList⟩
    | none =>
      ⟨nodes, state.refs,
        .debug ("Refified URLs into " ++ String.ofList (Number.naturalText state.refs.length) ++
          " references")⟩

section

variable (refs : ReferenceMap) (nodes : List Markdown.Node)

/-- The nodes after a pass are those of the recursion, however the pass ends. -/
theorem shortenAll_nodes : (shortenAll refs nodes).nodes = (shorten ⟨refs, none⟩ nodes).1 := by
  unfold shortenAll
  simp only
  split <;> rfl

/-- The table after a pass is that of the recursion, however the pass ends. -/
theorem shortenAll_refs : (shortenAll refs nodes).refs = (shorten ⟨refs, none⟩ nodes).2.refs := by
  unfold shortenAll
  simp only
  split <;> rfl

end

end Url

end PageDistill
