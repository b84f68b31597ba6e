import PageDistill.Entries
import PageDistill.Json.Value
import PageDistill.Number.Integer

/-!
# Reading JSON

A strict reader of JSON text, extended by the three words `NaN`, `Infinity` and
`-Infinity`.

Blank space is space, tab, line feed and carriage return. Control characters
must be escaped inside strings, numbers have no leading zeros, no comma stands
before a closing bracket, and nothing but blank space follows the value. A
number with a fraction or an exponent is rounded to the nearest binary64 number.
Of members with one key the last value counts, at the place of the first.

An integer has at most as many digits as `Number.mostDigits`. A longer one ends
the reading with a fault of its own, whatever follows it.

A `\u` escape of half a surrogate pair without its other half is read like any
other. No text can hold such a half, so the replacement character stands in for
it. Whether a text with a stand-in can be written as bytes is not decided here: a
run of the command has it from its surroundings.

Every value begins with a character of its own, so the length of the text
bounds the nesting; `read` passes that length on as the recursion's measure.

## Main definitions

* `ReadFault`: Why a text is not read.
* `readString`: The rest of a string after its opening quotation mark.
* `readNumber`: A number at the front of a text.
* `readValue`: A value at the front of a text.
* `read`: The value of a whole text.
-/

namespace PageDistill

namespace Json

/-- Why a text is not read. -/
inductive ReadFault where
  /-- It breaks the rules of the format. -/
  | malformed
  /-- It holds an integer of too many digits. -/
  | tooManyDigits (count : Nat)
  deriving DecidableEq, Repr

/-- What stands at the front of a text, with the text after it. -/
abbrev Front (α : Type) := Except ReadFault (α × List Char)

/-- Blank space between tokens. -/
def isSeparator (c : Char) : Bool := c == ' ' || c == '\t' || c == '\n' || c == '\r'

/-- Drops blank space at the front. -/
def skipBlank (s : List Char) : List Char := s.dropWhile isSeparator

/-- The value of a hexadecimal digit of either case. -/
def hexValue? (c : Char) : Option Nat :=
  if '0' ≤ c ∧ c ≤ '9' then some (c.toNat - 0x30)
  else if 'a' ≤ c ∧ c ≤ 'f' then some (c.toNat - 0x61 + 10)
  else if 'A' ≤ c ∧ c ≤ 'F' then some (c.toNat - 0x41 + 10)
  else none

/-- The number that four hexadecimal digits spell. -/
def hexQuad? (a b c d : Char) : Option Nat := do
  let a ← hexValue? a
  let b ← hexValue? b
  let c ← hexValue? c
  let d ← hexValue? d
  return ((a * 16 + b) * 16 + c) * 16 + d

/-- The character of an escape letter. -/
def escapeLetter? (c : Char) : Option Char :=
  match c with
  | '"' => some '"'
  | '\\' => some '\\'
  | '/' => some '/'
  | 'b' => some (Char.ofNat 8)
  | 'f' => some (Char.ofNat 12)
  | 'n' => some '\n'
  | 'r' => some '\r'
  | 't' => some '\t'
  | _ => none

/-- The character that a lone half of a surrogate pair reads as. -/
def replacement : Char := Char.ofNat 0xFFFD

/-- The units of a string after its opening mark: characters, and the code
    units of `\u` escapes, up to the closing mark. The rest follows. -/
def readUnits? : List Char → Option (List Nat × List Char)
  | [] => none
  | '"' :: rest => some ([], rest)
  | '\\' :: 'u' :: a :: b :: c :: d :: rest => do
    let unit ← hexQuad? a b c d
    let (units, rest) ← readUnits? rest
    return (unit :: units, rest)
  | '\\' :: letter :: rest => do
    let c ← escapeLetter? letter
    let (units, rest) ← readUnits? rest
    return (c.toNat :: units, rest)
  | c :: rest => do
    if c.toNat < 0x20 ∨ c = '\\' then none
    let (units, rest) ← readUnits? rest
    return (c.toNat :: units, rest)

/-- Joins surrogate pairs among the units of a string. -/
def joinSurrogates : List Nat → List Char
  | [] => []
  | [u] => [if 0xD800 ≤ u ∧ u ≤ 0xDFFF then replacement else Char.ofNat u]
  | u :: v :: rest =>
    if 0xD800 ≤ u ∧ u ≤ 0xDBFF ∧ 0xDC00 ≤ v ∧ v ≤ 0xDFFF then
      Char.ofNat (0x10000 + (u - 0xD800) * 0x400 + (v - 0xDC00)) :: joinSurrogates rest
    else
      (if 0xD800 ≤ u ∧ u ≤ 0xDFFF then replacement else Char.ofNat u) :: joinSurrogates (v :: rest)

/-- A string after its opening mark, and the text after its closing one. -/
def readString (s : List Char) : Front String :=
  match readUnits? s with
  | some (units, rest) => .ok (String.ofList (joinSurrogates units), rest)
  | none => .error .malformed

/-- The number that ASCII digits spell. -/
def digitsValue (ds : List Char) : Nat := ds.foldl (fun n c => 10 * n + (c.toNat - 0x30)) 0

/-- The digits of a fraction after its point, if one stands at the front. -/
def readFraction (s : List Char) : Option (List Char) × List Char :=
  match s with
  | '.' :: rest =>
    let ds := rest.takeWhile Char.isDigit
    if ds.isEmpty then (none, s) else (some ds, rest.dropWhile Char.isDigit)
  | _ => (none, s)

/-- The exponent that stands at the front, if one does. -/
def readExponent (s : List Char) : Option Int × List Char :=
  match s with
  | e :: rest =>
    if e = 'e' ∨ e = 'E' then
      let (negative, digits) :=
        match rest with
        | '-' :: r => (true, r)
        | '+' :: r => (false, r)
        | r => (false, r)
      let ds := digits.takeWhile Char.isDigit
      if ds.isEmpty then (none, s)
      else
        let n : Int := digitsValue ds
        (some (if negative then -n else n), digits.dropWhile Char.isDigit)
    else (none, s)
  | [] => (none, s)

/-- The number of the given sign that stands at the front: an integer when it
    has neither fraction nor exponent. -/
def readNumber (negative : Bool) (s : List Char) : Front Value :=
  let whole :=
    match s with
    | '0' :: rest => (['0'], rest)
    | _ => (s.takeWhile Char.isDigit, s.dropWhile Char.isDigit)
  if whole.1.isEmpty then .error .malformed
  else
    match readFraction whole.2 with
    | (fraction, rest) =>
      match readExponent rest with
      | (exponent, rest) =>
        if fraction.isNone ∧ exponent.isNone then
          if Number.mostDigits < whole.1.length then .error (.tooManyDigits whole.1.length)
          else
            let n : Int := digitsValue whole.1
            .ok (.integer (if negative then -n else n), rest)
        else
          let places := fraction.getD []
          let digits := digitsValue (whole.1 ++ places)
          let scale := exponent.getD 0 - (places.length : Int)
          .ok (.float (Binary64.ofDecimal negative digits scale), rest)

/-- Drops a word from the front of a text that begins with it. -/
def dropWord? (word : String) (s : List Char) : Option (List Char) :=
  let w := word.toList
  if w.isPrefixOf s then some (s.drop w.length) else none

/-- The words that stand for values. -/
def words : List (String × Value) :=
  [("null", .null), ("true", .bool true), ("false", .bool false), ("NaN", .float .notANumber),
    ("Infinity", .float (.infinite false)), ("-Infinity", .float (.infinite true))]

/-- A value without parts that stands at the front: a word or a number. -/
def readScalar (s : List Char) : Front Value :=
  match words.findSome? fun (word, value) => (dropWord? word s).map fun rest => (value, rest) with
  | some found => .ok found
  | none =>
    match s with
    | '-' :: rest => readNumber true rest
    | _ => readNumber false s

mutual

/-- A value at the front of a text, nested at most as deep as the measure. -/
def readValue : Nat → List Char → Front Value
  | 0, _ => .error .malformed
  | depth + 1, s =>
    match s with
    | '"' :: rest => (readString rest).map fun (text, rest) => (.string text, rest)
    | '[' :: rest =>
      match skipBlank rest with
      | ']' :: rest => .ok (.array [], rest)
      | rest => (readItems depth rest).map fun (items, rest) => (.array items, rest)
    | '\x7b' :: rest =>
      match skipBlank rest with
      | '\x7d' :: rest => .ok (.object [], rest)
      | rest => (readMembers depth [] rest).map fun (members, rest) => (.object members, rest)
    | _ => readScalar s

/-- The items of a list up to its closing bracket; at least one stands at the
    front. -/
def readItems : Nat → List Char → Front (List Value)
  | 0, _ => .error .malformed
  | depth + 1, s =>
    match readValue depth s with
    | .error fault => .error fault
    | .ok (item, rest) =>
      match skipBlank rest with
      | ']' :: rest => .ok ([item], rest)
      | ',' :: rest =>
        (readItems depth (skipBlank rest)).map fun (items, rest) => (item :: items, rest)
      | _ => .error .malformed

/-- The members of an object up to its closing brace, added to those already
    read; at least one stands at the front. -/
def readMembers : Nat → List (String × Value) → List Char → Front (List (String × Value))
  | 0, _, _ => .error .malformed
  | depth + 1, before, s =>
    match s with
    | '"' :: rest =>
      match readString rest with
      | .error fault => .error fault
      | .ok (key, rest) =>
        match skipBlank rest with
        | ':' :: rest =>
          match readValue depth (skipBlank rest) with
          | .error fault => .error fault
          | .ok (value, rest) =>
            let members := Entries.put before key value
            match skipBlank rest with
            | '\x7d' :: rest => .ok (members, rest)
            | ',' :: rest => readMembers depth members (skipBlank rest)
            | _ => .error .malformed
        | _ => .error .malformed
    | _ => .error .malformed

end

/-- The value of a text that holds one value and blank space around it. -/
def read (s : List Char) : Except ReadFault Value :=
  match readValue (s.length + 1) (skipBlank s) with
  | .error fault => .error fault
  | .ok (value, rest) => if (skipBlank rest).isEmpty then .ok value else .error .malformed

end Json

end PageDistill
