import PageDistill.Text.Printable

/-!
# Quoted Text

How a text is shown inside a message or inside the text of a list: between
quotation marks, with escapes for everything that would not be readable.

The marks are single, unless the text holds a single mark and no double one.
The mark in use and the backslash are escaped by a backslash, tab, line feed
and carriage return by their letters, and any other unprintable character by
the shortest of `\xNN`, `\uNNNN` and `\UNNNNNNNN` that fits its code point.

## Main definitions

* `quoteMark`: The mark that a text is put between.
* `quotedCode`: The code of one character between such marks.
* `quote`: The quoted text.
-/

namespace PageDistill

namespace Text

/-- The lower-case hexadecimal digit of a number below sixteen. -/
def lowerHexDigit (n : Nat) : Char :=
  if n < 10 then Char.ofNat (0x30 + n) else Char.ofNat (0x61 + (n - 10))

/-- The number in lower-case hexadecimal, padded with zeros to a width; digits
    beyond the width are dropped. -/
def lowerHex : Nat → Nat → List Char
  | 0, _ => []
  | width + 1, n => lowerHex width (n / 16) ++ [lowerHexDigit (n % 16)]

/-- Double marks for a text that holds a single mark and no double one, and
    single marks for all others. -/
def quoteMark (s : List Char) : Char :=
  if s.contains '\'' && !s.contains '"' then '"' else '\''

/-- The code of a character inside a text that stands between the given
    marks. -/
def quotedCode (mark c : Char) : List Char :=
  if c = mark ∨ c = '\\' then ['\\', c]
  else if c = '\t' then ['\\', 't']
  else if c = '\n' then ['\\', 'n']
  else if c = '\r' then ['\\', 'r']
  else if isPrintable c then [c]
  else if c.toNat ≤ 0xFF then '\\' :: 'x' :: lowerHex 2 c.toNat
  else if c.toNat ≤ 0xFFFF then '\\' :: 'u' :: lowerHex 4 c.toNat
  else '\\' :: 'U' :: lowerHex 8 c.toNat

/-- The text between its marks. -/
def quote (s : List Char) : List Char :=
  let mark := quoteMark s
  mark :: (s.flatMap (quotedCode mark) ++ [mark])

end Text

end PageDistill
