import PageDistill.Entries
import PageDistill.Text.Blank
import PageDistill.Text.Quoted
import PageDistill.Text.Utf8

/-!
# Files

What a command needs of the files around it, and a tree of files in memory that
provides it.

A path is cut at its slashes, and empty parts and single dots say nothing. Two
slashes at the front are kept as they are, and any other number of them is one.
The parts of a path are then followed one by one from the working directory, or
from the root if the path begins with a slash. Two dots lead up. All parts before
the last must lead to directories.

The place that a path leads to is spelled by its parts. Places above the working
directory begin with two dots, as long as nothing more is known about them.

## Main definitions

* `FileFault`: Why a file cannot be read or written.
* `pathParts`, `pathText`: A path by its parts, and the usual spelling.
* `FileAccess`: Reading and writing, in any monad.
* `FileTree`: Files and directories in memory.
* `FileTree.resolve`: The place that a path leads to.
* `FileTree.read`, `FileTree.write`: Reading and writing.
* `FileTree.access`: The access to a tree in memory.

## Theorems

* `FileTree.file?_withFile`: The file that was put at a place is there.
-/

namespace PageDistill

namespace CommandLine

/-- Why a file cannot be read or written; any other reason comes as text. -/
inductive FileFault where
  | notFound (path : String)
  | isDirectory (path : String)
  | notDirectory (path : String)
  | nameTooLong (path : String)
  | other (text : String)
  deriving DecidableEq, Repr

/-- What is wrong with a file, in words. -/
def FileFault.message : FileFault → String
  | .notFound path => "[Errno 2] No such file or directory: " ++ shown path
  | .isDirectory path => "[Errno 21] Is a directory: " ++ shown path
  | .notDirectory path => "[Errno 20] Not a directory: " ++ shown path
  | .nameTooLong path => "[Errno 36] File name too long: " ++ shown path
  | .other text => text
where
  /-- A path between quotation marks. -/
  shown (path : String) : String := String.ofList (Text.quote path.toList)

/-- The parts of a path between its slashes, without those that say nothing. -/
def pathParts (path : String) : List String :=
  let parts := (Text.splitOn '/' path.toList).filter fun part => !part.isEmpty && part != ['.']
  parts.map String.ofList

/-- The slashes at the front of a path: two if it begins with exactly two, one if it
    begins with any other number of them. -/
def pathRoot (path : String) : String :=
  match (path.toList.takeWhile fun c => c == '/').length with
  | 0 => ""
  | 2 => "//"
  | _ => "/"

/-- The usual spelling of a path. -/
def pathText (path : String) : String :=
  let text := pathRoot path ++ String.intercalate "/" (pathParts path)
  if text = "" then "." else text

/-- Whether a path holds the character that ends paths for a machine. -/
def hasNull (path : String) : Bool := path.toList.contains (Char.ofNat 0)

/-- The number of bytes of a text. -/
def byteCount (s : String) : Nat := (Text.encodeUtf8 s.toList).length

/-- The most bytes of one part of a path. -/
def mostPartBytes : Nat := 255

/-- The most bytes of a path. -/
def mostPathBytes : Nat := 4095

/-- Reading and writing files. -/
structure FileAccess (m : Type → Type) where
  read : String → m (Except FileFault (List UInt8))
  write : String → List UInt8 → m (Except FileFault Unit)

/-- A place among the files: the parts of the way to it from the working directory,
    or from the root, which has a slash as its first part. -/
abbrev Place := List String

/-- The root of all files. -/
def rootPlace : Place := ["/"]

/-- The place above a place. Nothing is above the root. -/
def placeAbove (place : Place) : Place :=
  if place = rootPlace then rootPlace
  else
    match place.getLast? with
    | none => [".."]
    | some ".." => place ++ [".."]
    | some _ => place.dropLast

/-- Files by their places, and the directories that are known without a file in
    them. -/
structure FileTree where
  files : List (Place × List UInt8)
  directories : List Place

namespace FileTree

/-- The bytes of the file at a place. -/
def file? (t : FileTree) (place : Place) : Option (List UInt8) :=
  (t.files.find? fun entry => entry.1 == place).map Prod.snd

/-- The tree with a file at a place. -/
def withFile (t : FileTree) (place : Place) (bytes : List UInt8) : FileTree :=
  { t with files := (place, bytes) :: t.files.filter fun entry => entry.1 != place }

/-- Whether a place is a directory: the working directory and all above it, the
    root, those that are known, and those on the way to them or to a file. -/
def isDirectory (t : FileTree) (place : Place) : Bool :=
  place == rootPlace || place.all (· == "..") ||
    (t.directories.any fun known => place.isPrefixOf known) ||
    t.files.any fun entry => place.isPrefixOf entry.1 && place != entry.1

/-- The place that the parts of a path lead to from a place, for a path of some
    spelling. -/
def follow (t : FileTree) (path : String) : Place → List String → Except FileFault Place
  | place, [] => .ok place
  | place, part :: rest =>
    let next := if part = ".." then placeAbove place else place ++ [part]
    if mostPartBytes < byteCount part then .error (.nameTooLong path)
    else if rest.isEmpty ∨ t.isDirectory next then follow t path next rest
    else if (t.file? next).isSome then .error (.notDirectory path)
    else .error (.notFound path)

/-- The place that a path leads to. -/
def resolve (t : FileTree) (path : String) : Except FileFault Place :=
  let name := pathText path
  if mostPathBytes < byteCount name then .error (.nameTooLong name)
  else t.follow name (if pathRoot path = "" then [] else rootPlace) (pathParts path)

/-- The bytes of the file at a place, for a path of some spelling. -/
def readAt (t : FileTree) (path : String) (place : Place) : Except FileFault (List UInt8) :=
  match t.file? place with
  | some bytes => .ok bytes
  | none => .error (if t.isDirectory place then .isDirectory path else .notFound path)

/-- The tree after writing the file at a place, for a path of some spelling. -/
def writeAt (t : FileTree) (path : String) (place : Place) (bytes : List UInt8) :
    Except FileFault FileTree :=
  if t.isDirectory place then .error (.isDirectory path) else .ok (t.withFile place bytes)

/-- The bytes of a file. -/
def read (t : FileTree) (path : String) : Except FileFault (List UInt8) := do
  t.readAt (pathText path) (← t.resolve path)

/-- The tree after writing a file, which must lie in a directory. -/
def write (t : FileTree) (path : String) (bytes : List UInt8) : Except FileFault FileTree := do
  t.writeAt (pathText path) (← t.resolve path) bytes

/-- The file that was put at a place is there. -/
theorem file?_withFile (t : FileTree) (place : Place) (bytes : List UInt8) :
    (t.withFile place bytes).file? place = some bytes := by
  simp [withFile, file?]

/-- The access to a tree in memory. -/
def access : FileAccess (StateM FileTree) where
  read path := return (← get).read path
  write path bytes := do
    match (← get).write path bytes with
    | .ok t =>
      set t
      return .ok ()
    | .error fault => return .error fault

end FileTree

end CommandLine

end PageDistill
