import PageDistill.Text.Blank

/-!
# Spacing of Rendered Pieces

How inline pieces and blocks are put after one another.

Two inline pieces are parted by one space, unless there is blank between them
already, or the first ends in an opening bracket, or the second is a single
mark of punctuation that clings to the word before it. A block begins on a line
of its own and ends with a line end; a section has a blank line before it, and a
heading, as well as a block that another block follows, has one after it.

## Main definitions

* `needsSpace`: Whether a space parts two inline pieces.
* `appendInline`: An inline piece after what is there.
* `appendBlock`: A block after what is there.

## Theorems

* `appendBlock_nil`: An empty block leaves no trace.
-/

namespace PageDistill

namespace Markdown

/-- The marks of punctuation that follow a word without a space. -/
def clingsToWord (c : Char) : Bool := ".,!?;:)".toList.contains c

/-- The brackets that no space follows. -/
def opensBracket (c : Char) : Bool := c == '(' || c == '['

/-- Whether a space parts an inline piece from what is there. -/
def needsSpace (out piece : List Char) : Bool :=
  match out.getLast?, piece with
  | some last, first :: others =>
    !Text.isBlank last && !Text.isBlank first && !(others.isEmpty && clingsToWord first) &&
      !opensBracket last
  | _, _ => false

/-- An inline piece after what is there. -/
def appendInline (out piece : List Char) : List Char :=
  if needsSpace out piece then out ++ ' ' :: piece else out ++ piece

/-- A text without the line ends at its end. -/
def trimLineEnds (s : List Char) : List Char := Text.trimEndBy (fun c => c == '\n') s

/-- What is there, ready for a block to follow: at the start of a line, and for a
    section after a blank line. -/
def openLine (isSection : Bool) (out : List Char) : List Char :=
  if out.isEmpty then []
  else if isSection then trimLineEnds out ++ ['\n', '\n']
  else if out.getLast? = some '\n' then out
  else out ++ ['\n']

/-- A block after what is there, with a blank line after it if it is kept apart
    from what follows. An empty block leaves no trace. -/
def appendBlock (isSection isApart : Bool) (out block : List Char) : List Char :=
  if block.isEmpty then out
  else
    trimLineEnds (openLine isSection out ++ block) ++ (if isApart then ['\n', '\n'] else ['\n'])

/-- An empty block leaves no trace. -/
theorem appendBlock_nil (isSection isApart : Bool) (out : List Char) :
    appendBlock isSection isApart out [] = out := rfl

end Markdown

end PageDistill
