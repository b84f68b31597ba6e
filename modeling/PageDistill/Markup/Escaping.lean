/-!
# Character References in Markup

The characters that markup cannot hold as they are, and the references that
stand for them.

Text is written with references for the ampersand and the two angle brackets.
Reading knows these and three more: the two quotation marks and the no-break
space. A reference that is not known stays as it is.

## Main definitions

* `writeText`: Text with references.
* `references`: The references that are read.
* `readText`: The characters that text with references stands for.
-/

namespace PageDistill

namespace Markup

/-- The code of a character in text. -/
def textCode (c : Char) : List Char :=
  if c = '&' then "&amp;".toList
  else if c = '<' then "&lt;".toList
  else if c = '>' then "&gt;".toList
  else [c]

/-- Text with references for the characters of markup. -/
def writeText (s : List Char) : List Char := s.flatMap textCode

/-- The references that are read, with the characters they stand for. -/
def references : List (List Char × Char) :=
  [("&amp;".toList, '&'), ("&lt;".toList, '<'), ("&gt;".toList, '>'), ("&quot;".toList, '"'),
    ("&nbsp;".toList, Char.ofNat 0xA0), ("&#39;".toList, '\'')]

/-- The reference at the front of a text: its character and its length. -/
def reference? (s : List Char) : Option (Char × Nat) :=
  references.findSome? fun (r, c) => if r.isPrefixOf s then some (c, r.length) else none

/-- The characters that text stands for, after skipping some characters that a
    reference has used up. -/
def readTextFrom : Nat → List Char → List Char
  | _, [] => []
  | skipped + 1, _ :: rest => readTextFrom skipped rest
  | 0, c :: rest =>
    match reference? (c :: rest) with
    | some (r, length) => r :: readTextFrom (length - 1) rest
    | none => c :: readTextFrom 0 rest

/-- The characters that text with references stands for. -/
def readText (s : List Char) : List Char := readTextFrom 0 s

end Markup

end PageDistill
