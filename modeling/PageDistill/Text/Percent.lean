/-!
# Percent Encoding of Destinations

How a URL is written into a Markdown destination: characters that are safe
there stay, and every other character becomes the `%XX` forms of its UTF-8
bytes, in upper-case hexadecimal.

The percent sign itself is safe, so escapes that a page already wrote survive
and encoding a second time changes nothing. The encoding is a concatenation of
one code per character, which is what makes it compatible with gluing URLs
together.

## Main definitions

* `urlSafe`: The characters that are written as they are.
* `percentByte`: The escape of one byte.
* `percentEncode`: The encoding of a text.

## Theorems

* `percentEncode_append`: Encoding commutes with concatenation.
* `urlSafe_of_mem_percentEncode`: What is written is safe.
* `percentEncode_of_safe`: A text of safe characters is its own encoding.
-/

namespace PageDistill

namespace Text

/-- Characters a destination holds unescaped: ASCII letters and digits, the
    reserved and the unreserved marks of URLs, and the percent sign. -/
def urlSafe (c : Char) : Bool :=
  c.isAlphanum || ";,/?:@&=+$-_.!~*'()#%".toList.contains c

/-- The upper-case hexadecimal digit of a number below sixteen. -/
def upperHexDigit (n : Nat) : Char :=
  if n < 10 then Char.ofNat (0x30 + n) else Char.ofNat (0x41 + (n - 10))

/-- A byte as a percent sign and two upper-case hexadecimal digits. -/
def percentByte (b : UInt8) : List Char :=
  ['%', upperHexDigit (b.toNat / 16), upperHexDigit (b.toNat % 16)]

/-- The code of one character in a destination. -/
def percentCode (c : Char) : List Char :=
  if urlSafe c then [c] else (String.utf8EncodeChar c).flatMap percentByte

/-- The text with every unsafe character replaced by the escapes of its
    UTF-8 bytes. -/
def percentEncode (s : List Char) : List Char := s.flatMap percentCode

/-- The percent encoding of a URL. -/
def encodeUrl (url : String) : String := String.ofList (percentEncode url.toList)

theorem percentEncode_append (a b : List Char) :
    percentEncode (a ++ b) = percentEncode a ++ percentEncode b :=
  List.flatMap_append

/-- The digits of an escape are safe: sixteen cases. -/
theorem urlSafe_upperHexDigit (n : Nat) (h : n < 16) : urlSafe (upperHexDigit n) = true := by
  have key : ∀ k : Fin 16, urlSafe (upperHexDigit k.val) = true := by decide
  exact key ⟨n, h⟩

theorem urlSafe_of_mem_percentByte (b : UInt8) (c : Char) (h : c ∈ percentByte b) :
    urlSafe c = true := by
  have hb : b.toNat < 256 := b.toNat_lt
  simp only [percentByte, List.mem_cons, List.not_mem_nil, or_false] at h
  rcases h with rfl | rfl | rfl
  · decide
  · exact urlSafe_upperHexDigit _ (by omega)
  · exact urlSafe_upperHexDigit _ (by omega)

/-- What is written is safe, whatever the text holds. -/
theorem urlSafe_of_mem_percentEncode (s : List Char) (c : Char) (h : c ∈ percentEncode s) :
    urlSafe c = true := by
  rw [percentEncode, List.mem_flatMap] at h
  obtain ⟨d, _, hc⟩ := h
  rw [percentCode] at hc
  split at hc
  · next hd =>
      rw [List.mem_singleton] at hc
      rw [hc, hd]
  · rw [List.mem_flatMap] at hc
    obtain ⟨b, _, hb⟩ := hc
    exact urlSafe_of_mem_percentByte b c hb

/-- A text of safe characters is its own encoding. -/
theorem percentEncode_of_safe (s : List Char) (h : ∀ c ∈ s, urlSafe c = true) :
    percentEncode s = s := by
  induction s with
  | nil => rfl
  | cons c rest ih =>
      have hc : percentCode c = [c] := by
        rw [percentCode, if_pos (h c List.mem_cons_self)]
      have hrest := ih fun d hd => h d (List.mem_cons_of_mem c hd)
      rw [percentEncode, List.flatMap_cons, hc]
      rw [percentEncode] at hrest
      rw [hrest, List.singleton_append]

end Text

end PageDistill
