import PageDistill.Number.Integer
import PageDistill.Text.Quoted

/-!
# Reading UTF-8

Strict decoding of a file's bytes, and the line ends of a text file.

The decoder follows the table of well-formed byte sequences: it refuses
overlong forms, surrogates and code points past U+10FFFF at the byte where the
sequence stops being one. A refusal says which bytes were read in vain and why,
so that a message can point at them.

## Main definitions

* `Utf8Fault`: Where and why decoding stopped.
* `decodeUtf8`: The text of a list of bytes, or the first fault.
* `Utf8Fault.message`: What went wrong, in words.
* `encodeUtf8`: The bytes of a text.
* `unifyLineEnds`: Every line end becomes a line feed.
-/

namespace PageDistill

namespace Text

/-- Why a byte sequence is not UTF-8. -/
inductive Utf8Cause where
  /-- The byte cannot begin a character. -/
  | invalidStart
  /-- The byte after the ones read cannot continue the character. -/
  | invalidContinuation
  /-- The bytes end inside a character. -/
  | unexpectedEnd
  deriving DecidableEq, Repr

/-- A refusal: the bytes that were read in vain, the position of the first of
    them, and the cause. -/
structure Utf8Fault where
  cause : Utf8Cause
  position : Nat
  bytes : List UInt8
  deriving DecidableEq, Repr

/-- What stands at the front of some bytes: one character with its width, or
    the number of bytes read in vain with the cause. -/
inductive Utf8Front where
  | character (c : Char) (width : Nat)
  | fault (cause : Utf8Cause) (width : Nat)
  deriving DecidableEq, Repr

/-- A continuation byte lies in 80–BF. -/
def isContinuation (b : UInt8) : Bool := 0x80 ≤ b.toNat && b.toNat ≤ 0xBF

/-- The second byte that may follow a given first one. Four first bytes narrow
    the continuation range, which excludes overlong forms, surrogates and code
    points that are too large. -/
def isSecond (first second : UInt8) : Bool :=
  isContinuation second &&
    match first.toNat with
    | 0xE0 => 0xA0 ≤ second.toNat
    | 0xED => second.toNat ≤ 0x9F
    | 0xF0 => 0x90 ≤ second.toNat
    | 0xF4 => second.toNat ≤ 0x8F
    | _ => true

/-- The character with the code point whose leading bits stand in the first
    byte and whose groups of six bits stand in the other bytes. -/
def assemble (lead : Nat) (others : List UInt8) : Char :=
  Char.ofNat (others.foldl (fun n b => n * 64 + (b.toNat - 0x80)) lead)

/-- The character at the front of the bytes, if they begin with one. -/
def utf8Front (first : UInt8) (rest : List UInt8) : Utf8Front :=
  let n := first.toNat
  if n < 0x80 then .character (Char.ofNat n) 1
  else if n < 0xC2 then .fault .invalidStart 1
  else if n < 0xE0 then
    match rest with
    | [] => .fault .unexpectedEnd 1
    | b :: _ =>
      if isContinuation b then .character (assemble (n - 0xC0) [b]) 2
      else .fault .invalidContinuation 1
  else if n < 0xF5 then
    match rest with
    | [] => .fault .unexpectedEnd 1
    | b :: rest =>
      if !isSecond first b then .fault .invalidContinuation 1
      else
        match rest with
        | [] => .fault .unexpectedEnd 2
        | c :: rest =>
          if !isContinuation c then .fault .invalidContinuation 2
          else if n < 0xF0 then .character (assemble (n - 0xE0) [b, c]) 3
          else
            match rest with
            | [] => .fault .unexpectedEnd 3
            | d :: _ =>
              if isContinuation d then .character (assemble (n - 0xF0) [b, c, d]) 4
              else .fault .invalidContinuation 3
  else .fault .invalidStart 1

/-- The text of the bytes from a position on. -/
def decodeUtf8From (position : Nat) : List UInt8 → Except Utf8Fault (List Char)
  | [] => .ok []
  | b :: rest =>
    match utf8Front b rest with
    | .fault cause width => .error ⟨cause, position, (b :: rest).take width⟩
    | .character c width =>
      (decodeUtf8From (position + width) (rest.drop (width - 1))).map (c :: ·)
termination_by bytes => bytes.length
decreasing_by
  simp only [List.length_drop, List.length_cons]
  omega

/-- The text of the bytes, or the first place where they are not UTF-8. -/
def decodeUtf8 (bytes : List UInt8) : Except Utf8Fault (List Char) := decodeUtf8From 0 bytes

/-- Why decoding stopped, in words. -/
def Utf8Cause.message : Utf8Cause → String
  | .invalidStart => "invalid start byte"
  | .invalidContinuation => "invalid continuation byte"
  | .unexpectedEnd => "unexpected end of data"

/-- What went wrong, in words: one byte is shown itself, and several are shown by
    their positions. -/
def Utf8Fault.message (f : Utf8Fault) : String :=
  let number := fun n => String.ofList (Number.naturalText n)
  let place :=
    match f.bytes with
    | [b] => "byte 0x" ++ String.ofList (lowerHex 2 b.toNat) ++ " in position " ++ number f.position
    | bytes =>
      "bytes in position " ++ number f.position ++ "-" ++ number (f.position + bytes.length - 1)
  "'utf-8' codec can't decode " ++ place ++ ": " ++ f.cause.message

/-- The bytes of a text. -/
def encodeUtf8 (s : List Char) : List UInt8 := s.flatMap String.utf8EncodeChar

/-- Carriage return with line feed, and carriage return alone, become a line
    feed. -/
def unifyLineEnds : List Char → List Char
  | [] => []
  | '\r' :: '\n' :: rest => '\n' :: unifyLineEnds rest
  | '\r' :: rest => '\n' :: unifyLineEnds rest
  | c :: rest => c :: unifyLineEnds rest

end Text

end PageDistill
