import PageDistill.CommandLine.Files
import PageDistill.Markup.Html

/-!
# Surroundings

What a run of the command finds around it.

A run reads and writes files, reads the standard input, shows text on the standard
output, has texts written as bytes, has pages read, and has the table of references
drawn. Each of these may fail for reasons that lie outside of the run. So they are
given to a run, which says only what it does when they fail.

Whether a text can be written as bytes is told by its surroundings too: a text may
hold a character in the place of half a surrogate pair, which has no bytes, and
where it came from is not to be seen.

On a tree of files in memory nothing but the files changes. What else there is
around a run is fixed then, and it may still be anything.

## Main definitions

* `AccessFault`: Why a text is not read or not written.
* `Surroundings`: What is around a run, in any monad.
* `Outside`: What is around a run besides a tree of files.
* `Outside.around`: The surroundings of a run on a tree of files.
* `Outside.ordinary`: Surroundings in which nothing but access to files fails.
-/

namespace PageDistill

namespace CommandLine

/-- Why a text is not read or not written. -/
inductive AccessFault where
  /-- The file, or the stream, is not there or refuses. -/
  | file (fault : FileFault)
  /-- The path holds the character that ends paths. -/
  | null
  /-- The bytes are not those of a text, or the text cannot be written as bytes. -/
  | coding (reason : String)
  deriving DecidableEq, Repr

/-- What is around a run. -/
structure Surroundings (m : Type → Type) where
  files : FileAccess m
  /-- The text of the standard input. -/
  stdin : m (Except AccessFault (List Char))
  /-- Shows a text on the standard output. If that fails, what was shown of it, and why. -/
  display : String → m (Option (String × AccessFault))
  /-- Why a text cannot be written to a file, if it cannot. It may hold a stand-in for half of a
  surrogate pair, which has no bytes. -/
  unwritable? : List Char → Option String
  /-- The table of references as it is drawn for a reader. -/
  drawn : ReferenceMap → Except String String
  machine : Machine

/-- What is around a run besides a tree of files. -/
structure Outside where
  stdin : Except AccessFault (List Char)
  display : String → Option (String × AccessFault)
  unwritable? : List Char → Option String
  drawn : ReferenceMap → Except String String
  machine : Machine

namespace Outside

/-- The surroundings of a run on a tree of files. -/
def around (outside : Outside) : Surroundings (StateM FileTree) where
  files := FileTree.access
  stdin := pure outside.stdin
  display text := pure (outside.display text)
  unwritable? := outside.unwritable?
  drawn := outside.drawn
  machine := outside.machine

end Outside

/-- The table of references as lines with two columns. -/
def tableLines (refs : ReferenceMap) : List String :=
  "  URL  Token" :: refs.map fun (key, token) => "  " ++ key ++ "  " ++ token

/-- Lines as one text, each with its line end. -/
def linesText (lines : List String) : String := String.join (lines.map fun line => line ++ "\n")

/-- The machine that reads pages of HTML and has room for all of them. -/
def htmlMachine : Machine := ⟨Markup.htmlReaders, fun _ _ => .text⟩

/-- Surroundings with some standard input, in which nothing but access to files fails. -/
def Outside.ordinary (stdin : List Char) : Outside where
  stdin := .ok stdin
  display _ := none
  unwritable? _ := none
  drawn refs := .ok (linesText (tableLines refs))
  machine := htmlMachine

end CommandLine

end PageDistill
