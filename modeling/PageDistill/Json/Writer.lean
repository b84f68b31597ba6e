import PageDistill.Json.Value
import PageDistill.Number.Integer
import PageDistill.Number.Shortest
import PageDistill.Text.Blank
import PageDistill.Text.Quoted

/-!
# Writing JSON

Values as JSON text without blank space, and values as the text that stands for
them inside a message.

JSON text keeps all characters but the quotation mark, the backslash and the
controls below U+0020. The text inside a message shows strings between the
marks of `Text.quote` and spells the words for nothing and for truth with a
capital; a string by itself stands there without marks.

## Main definitions

* `quoteString`: A string as JSON text.
* `Value.write`: A value as JSON text.
* `Value.display`: A value inside a message.
* `Kind.display`: The kind of a value inside a message.
-/

namespace PageDistill

namespace Json

/-- Numbers in JSON text: no exponent for 0.0001 and above and below ten to the
    sixteenth. -/
def writtenFloat : FloatNotation := ⟨-3, 16, 2, "Infinity", "NaN"⟩

/-- Numbers inside a message: the same, with other words for the values that
    have no digits. -/
def displayedFloat : FloatNotation := ⟨-3, 16, 2, "inf", "nan"⟩

example : writtenFloat.write (.ofDecimal false 1 15) = "1000000000000000.0".toList := by
  decide +kernel

example : writtenFloat.write (.ofDecimal false 1 16) = "1e+16".toList := by decide +kernel

example : writtenFloat.write (.ofDecimal false 1 (-4)) = "0.0001".toList := by decide +kernel

example : writtenFloat.write (.ofDecimal true 1 (-7)) = "-1e-07".toList := by decide +kernel

example : displayedFloat.write (.ofDecimal false 1 400) = "inf".toList := by decide +kernel

/-- The code of one character inside a JSON string. -/
def stringCode (c : Char) : List Char :=
  if c = '"' ∨ c = '\\' then ['\\', c]
  else if c = '\n' then ['\\', 'n']
  else if c = '\r' then ['\\', 'r']
  else if c = '\t' then ['\\', 't']
  else if c.toNat = 8 then ['\\', 'b']
  else if c.toNat = 12 then ['\\', 'f']
  else if c.toNat < 0x20 then '\\' :: 'u' :: Text.lowerHex 4 c.toNat
  else [c]

/-- A string as JSON text, marks included. -/
def quoteString (s : String) : List Char := '"' :: (s.toList.flatMap stringCode ++ ['"'])

mutual

/-- The value as JSON text without blank space. -/
def Value.write : Value → List Char
  | .null => "null".toList
  | .bool true => "true".toList
  | .bool false => "false".toList
  | .integer n => Number.integerText n
  | .float x => writtenFloat.write x
  | .string s => quoteString s
  | .array items => '[' :: (Text.joinWith [','] (writeItems items) ++ [']'])
  | .object members => '\x7b' :: (Text.joinWith [','] (writeMembers members) ++ ['\x7d'])

/-- The texts of the items of a list. -/
def writeItems : List Value → List (List Char)
  | [] => []
  | item :: items => item.write :: writeItems items

/-- The texts of the members of an object. -/
def writeMembers : List (String × Value) → List (List Char)
  | [] => []
  | (key, value) :: members => (quoteString key ++ ':' :: value.write) :: writeMembers members

end

mutual

/-- The value as it stands inside another value of a message. -/
def Value.quoted : Value → List Char
  | .null => "None".toList
  | .bool true => "True".toList
  | .bool false => "False".toList
  | .integer n => Number.integerText n
  | .float x => displayedFloat.write x
  | .string s => Text.quote s.toList
  | .array items => '[' :: (Text.joinWith [',', ' '] (quotedItems items) ++ [']'])
  | .object members => '\x7b' :: (Text.joinWith [',', ' '] (quotedMembers members) ++ ['\x7d'])

/-- The texts of the items of a list inside a message. -/
def quotedItems : List Value → List (List Char)
  | [] => []
  | item :: items => item.quoted :: quotedItems items

/-- The texts of the members of an object inside a message. -/
def quotedMembers : List (String × Value) → List (List Char)
  | [] => []
  | (key, value) :: members =>
    (Text.quote key.toList ++ ':' :: ' ' :: value.quoted) :: quotedMembers members

end

/-- The kind of a value inside a message. -/
def Kind.display : Kind → String
  | .null => "NoneType"
  | .bool => "bool"
  | .integer => "int"
  | .float => "float"
  | .string => "str"
  | .array => "list"
  | .object => "dict"

/-- The value inside a message. A string stands there as it is. -/
def Value.display : Value → List Char
  | .string s => s.toList
  | value => value.quoted

end Json

end PageDistill
