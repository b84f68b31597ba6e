import PageDistill.Text.Blank
import PageDistill.Text.Percent
import PageDistill.Text.Utf8

/-!
# Percent Decoding

What a destination stands for, and why encoding a URL does not change it.

An escape is a percent sign and two hexadecimal digits of either case, and stands for a byte. All
other bytes stand for themselves, a percent sign without two digits behind it among them. So what a
percent sign says depends on the two bytes behind it, and it is there that encoding could do harm:
the percent sign is written as it is, and a code may come to stand right behind it.

It does no harm because of how codes begin. A safe character is its own code, and the code of any
other one begins with a percent sign, which is no digit. The bytes of a character that is not safe
are no digits either. So two digits stand behind a percent sign after encoding exactly if the same
two stood there before (`opensEscape_percentEncode`), and the induction over the text has an escape,
a percent sign alone and any other character for its cases.

## Main definitions

* `digitOf?`: The value of a byte as a hexadecimal digit.
* `escapedByte?`: The byte that an escape stands for.
* `percentDecode`: The bytes that some bytes stand for.

## Theorems

* `percentDecode_percentByte`: An escape that is written stands for its byte.
* `opensEscape_percentEncode`: Encoding makes no escape and breaks none.
* `percentDecode_percentEncode`: A URL and its encoding stand for the same bytes.
* `encodeUrl_normalForm`: Encoded URLs are safe, and encoding them again changes nothing.
-/

namespace PageDistill

namespace Text

/-- The value of a byte as a hexadecimal digit of either case. -/
def digitOf? (b : UInt8) : Option Nat :=
  let n := b.toNat
  if 0x30 ≤ n ∧ n ≤ 0x39 then some (n - 0x30)
  else if 0x41 ≤ n ∧ n ≤ 0x46 then some (n - 0x41 + 10)
  else if 0x61 ≤ n ∧ n ≤ 0x66 then some (n - 0x61 + 10)
  else none

/-- The byte that three bytes stand for, if they are an escape. -/
def escapedByte? (sign high low : UInt8) : Option UInt8 :=
  if sign = 0x25 then
    match digitOf? high, digitOf? low with
    | some h, some l => some (UInt8.ofNat (16 * h + l))
    | _, _ => none
  else none

/-- The bytes that some bytes stand for: escapes are read from left to right, and what is no escape
    stays. -/
def percentDecode : List UInt8 → List UInt8
  | a :: b :: c :: rest =>
    match escapedByte? a b c with
    | some byte => byte :: percentDecode rest
    | none => a :: percentDecode (b :: c :: rest)
  | short => short

/-- Whether the first of some bytes is a hexadecimal digit. -/
def opensDigit (bytes : List UInt8) : Bool := bytes.head?.any fun b => (digitOf? b).isSome

/-- Whether bytes begin with two hexadecimal digits. -/
def opensEscape (bytes : List UInt8) : Bool := opensDigit bytes && opensDigit bytes.tail

theorem encodeUtf8_cons (c : Char) (s : List Char) :
    encodeUtf8 (c :: s) = String.utf8EncodeChar c ++ encodeUtf8 s :=
  List.flatMap_cons

theorem encodeUtf8_append (s t : List Char) :
    encodeUtf8 (s ++ t) = encodeUtf8 s ++ encodeUtf8 t :=
  List.flatMap_append

theorem percentEncode_cons (c : Char) (s : List Char) :
    percentEncode (c :: s) = percentCode c ++ percentEncode s :=
  List.flatMap_cons

/-- A byte that is no percent sign stands for itself. -/
theorem percentDecode_cons {b : UInt8} (h : b ≠ 0x25) (bytes : List UInt8) :
    percentDecode (b :: bytes) = b :: percentDecode bytes := by
  match bytes with
  | [] => rfl
  | [_] => rfl
  | _ :: _ :: _ => simp only [percentDecode, escapedByte?, if_neg h]

theorem percentDecode_append {front : List UInt8} (h : 0x25 ∉ front) (bytes : List UInt8) :
    percentDecode (front ++ bytes) = front ++ percentDecode bytes := by
  induction front with
  | nil => rfl
  | cons b front ih =>
      rw [List.mem_cons, not_or] at h
      rw [List.cons_append, percentDecode_cons fun hb => h.1 hb.symm, ih h.2, List.cons_append]

theorem percentDecode_escape {high low byte : UInt8} (h : escapedByte? 0x25 high low = some byte)
    (bytes : List UInt8) :
    percentDecode (0x25 :: high :: low :: bytes) = byte :: percentDecode bytes := by
  simp only [percentDecode, h]

/-- Two digits behind a percent sign stand for some byte with it. -/
theorem exists_escapedByte {high low : UInt8} (hhigh : (digitOf? high).isSome = true)
    (hlow : (digitOf? low).isSome = true) : ∃ byte, escapedByte? 0x25 high low = some byte := by
  rcases Option.isSome_iff_exists.mp hhigh with ⟨h, hh⟩
  rcases Option.isSome_iff_exists.mp hlow with ⟨l, hl⟩
  unfold escapedByte?
  rw [if_pos rfl, hh, hl]
  exact ⟨_, rfl⟩

/-- A percent sign without two digits behind it stands for itself. -/
theorem percentDecode_sign {bytes : List UInt8} (h : opensEscape bytes = false) :
    percentDecode (0x25 :: bytes) = 0x25 :: percentDecode bytes := by
  match bytes with
  | [] => rfl
  | [_] => rfl
  | high :: low :: rest =>
      change ((digitOf? high).isSome && (digitOf? low).isSome) = false at h
      -- The two bytes behind the sign are not both digits, so they are no escape.
      have hnone : escapedByte? 0x25 high low = none := by
        unfold escapedByte?
        rw [if_pos rfl]
        cases hhigh : digitOf? high with
        | none => rfl
        | some _ =>
            cases hlow : digitOf? low with
            | none => rfl
            | some _ =>
                rw [hhigh, hlow] at h
                exact absurd h Bool.noConfusion
      simp only [percentDecode, hnone]

/-- A digit is written in one byte, and its value is read back: sixteen cases. -/
theorem digitOf?_upperHexDigit (n : Nat) (h : n < 16) :
    ∃ b, String.utf8EncodeChar (upperHexDigit n) = [b] ∧ digitOf? b = some n := by
  have key : ∀ k : Fin 16,
      String.utf8EncodeChar (upperHexDigit k) = [UInt8.ofNat (upperHexDigit k).toNat] ∧
        digitOf? (UInt8.ofNat (upperHexDigit k).toNat) = some k.val := by decide
  exact ⟨_, key ⟨n, h⟩⟩

/-- An escape that is written stands for its byte. -/
theorem percentDecode_percentByte (b : UInt8) (bytes : List UInt8) :
    percentDecode (encodeUtf8 (percentByte b) ++ bytes) = b :: percentDecode bytes := by
  have hb : b.toNat < 256 := b.toNat_lt
  rcases digitOf?_upperHexDigit (b.toNat / 16) (by omega) with ⟨high, hhigh, hh⟩
  rcases digitOf?_upperHexDigit (b.toNat % 16) (by omega) with ⟨low, hlow, hl⟩
  have hbytes : encodeUtf8 (percentByte b) = [0x25, high, low] := by
    rw [percentByte, encodeUtf8_cons, encodeUtf8_cons, encodeUtf8_cons, hhigh, hlow]
    rfl
  have hescape : escapedByte? 0x25 high low = some b := by
    unfold escapedByte?
    rw [if_pos rfl, hh, hl]
    simp only [Option.some.injEq]
    rw [show 16 * (b.toNat / 16) + b.toNat % 16 = b.toNat by omega, UInt8.ofNat_toNat]
  rw [hbytes]
  exact percentDecode_escape hescape bytes

theorem percentDecode_percentBytes (codes bytes : List UInt8) :
    percentDecode (encodeUtf8 (codes.flatMap percentByte) ++ bytes) =
      codes ++ percentDecode bytes := by
  induction codes with
  | nil => rfl
  | cons b codes ih =>
      rw [List.flatMap_cons, encodeUtf8_append, List.append_assoc, percentDecode_percentByte, ih,
        List.cons_append]

/-- A character of ASCII is one byte, and the bytes of any other one lie above those of ASCII. -/
theorem utf8EncodeChar_of_lt {c : Char} (h : c.toNat < 128) :
    String.utf8EncodeChar c = [UInt8.ofNat c.toNat] := by
  have hle : c.val.toNat ≤ 127 := Nat.le_of_lt_succ h
  unfold String.utf8EncodeChar
  exact if_pos hle

theorem le_of_mem_utf8EncodeChar {c : Char} (h : 128 ≤ c.toNat) :
    ∀ b ∈ String.utf8EncodeChar c, 128 ≤ b.toNat := by
  have hascii : ¬c.val.toNat ≤ 127 := Nat.not_le.mpr h
  have hhigh : ∀ n : Nat, 128 ≤ n → n < 256 → 128 ≤ (UInt8.ofNat n).toNat := by
    intro n hn hlt
    rw [UInt8.toNat_ofNat_of_lt' hlt]
    exact hn
  -- Every byte is a remainder below 64 with 128 added to it, or a smaller one with more.
  have hlast : ∀ n : Nat, 128 ≤ (UInt8.ofNat (n % 64 + 128)).toNat :=
    fun n => hhigh _ (by omega) (by omega)
  unfold String.utf8EncodeChar
  simp only [if_neg hascii]
  split
  · exact List.forall_mem_cons.mpr ⟨hhigh _ (by omega) (by omega),
      List.forall_mem_singleton.mpr (hlast _)⟩
  · split
    · exact List.forall_mem_cons.mpr ⟨hhigh _ (by omega) (by omega),
        List.forall_mem_cons.mpr ⟨hlast _, List.forall_mem_singleton.mpr (hlast _)⟩⟩
    · exact List.forall_mem_cons.mpr ⟨hhigh _ (by omega) (by omega),
        List.forall_mem_cons.mpr ⟨hlast _,
          List.forall_mem_cons.mpr ⟨hlast _, List.forall_mem_singleton.mpr (hlast _)⟩⟩⟩

theorem utf8EncodeChar_ne_nil (c : Char) : String.utf8EncodeChar c ≠ [] := by
  unfold String.utf8EncodeChar
  simp only
  split
  · exact List.cons_ne_nil _ _
  · split
    · exact List.cons_ne_nil _ _
    · split <;> exact List.cons_ne_nil _ _

/-- The safe characters lie between the blank ones of ASCII and its end. -/
theorem bounds_of_urlSafe {c : Char} (h : urlSafe c = true) : 0x20 < c.toNat ∧ c.toNat < 128 := by
  have hmarks : ∀ d ∈ ";,/?:@&=+$-_.!~*'()#%".toList,
      decide (0x20 < d.toNat ∧ d.toNat < 128) = true := List.all_eq_true.mp (by decide)
  rw [urlSafe, Bool.or_eq_true, List.contains_iff_mem] at h
  rcases h with halnum | hmark
  · change ((decide (c.val ≥ 65 ∧ c.val ≤ 90) || decide (c.val ≥ 97) && decide (c.val ≤ 122)) ||
      decide (c.val ≥ 48) && decide (c.val ≤ 57)) = true at halnum
    simp only [Bool.or_eq_true, Bool.and_eq_true, decide_eq_true_eq, ge_iff_le,
      UInt32.le_iff_toNat_le] at halnum
    change ((65 ≤ c.toNat ∧ c.toNat ≤ 90) ∨ 97 ≤ c.toNat ∧ c.toNat ≤ 122) ∨
      48 ≤ c.toNat ∧ c.toNat ≤ 57 at halnum
    omega
  · exact of_decide_eq_true (hmarks c hmark)

theorem lt_of_urlSafe {c : Char} (h : urlSafe c = true) : c.toNat < 128 := (bounds_of_urlSafe h).2

/-- A digit is safe: 128 cases. -/
theorem urlSafe_of_digitOf? {c : Char} (hlt : c.toNat < 128)
    (h : (digitOf? (UInt8.ofNat c.toNat)).isSome = true) : urlSafe c = true := by
  have key : ∀ n : Fin 128,
      (digitOf? (UInt8.ofNat n)).isSome = true → urlSafe (Char.ofNat n) = true := by decide
  have hsafe := key ⟨c.toNat, hlt⟩ h
  rwa [Char.ofNat_toNat] at hsafe

/-- Only a percent sign has the byte of one. -/
theorem sign_not_mem_utf8EncodeChar {c : Char} (h : c ≠ '%') :
    0x25 ∉ String.utf8EncodeChar c := by
  intro hmem
  rcases Nat.lt_or_ge c.toNat 128 with hlt | hge
  · rw [utf8EncodeChar_of_lt hlt, List.mem_singleton] at hmem
    have hcode := congrArg UInt8.toNat hmem
    rw [UInt8.toNat_ofNat_of_lt' (Nat.lt_trans hlt (by decide))] at hcode
    refine h ?_
    rw [← Char.ofNat_toNat c, ← hcode]
    rfl
  · exact absurd (le_of_mem_utf8EncodeChar hge _ hmem) (by decide)

/-- No byte of a character that is not safe is a digit. -/
theorem digitOf?_of_mem_coded {c : Char} (hcoded : urlSafe c = false) {b : UInt8}
    (hb : b ∈ String.utf8EncodeChar c) : digitOf? b = none := by
  rcases Nat.lt_or_ge c.toNat 128 with hlt | hge
  · rw [utf8EncodeChar_of_lt hlt, List.mem_singleton] at hb
    cases hdigit : digitOf? b with
    | none => rfl
    | some n =>
        rw [hb] at hdigit
        rw [urlSafe_of_digitOf? hlt (by rw [hdigit]; rfl)] at hcoded
        exact absurd hcoded Bool.noConfusion
  · have hhigh := le_of_mem_utf8EncodeChar hge b hb
    unfold digitOf?
    simp only
    rw [if_neg (by omega), if_neg (by omega), if_neg (by omega)]

/-- The code of a safe character is its byte, and the code of any other one is made of escapes. -/
theorem encodeUtf8_percentCode_of_safe {c : Char} (h : urlSafe c = true) :
    encodeUtf8 (percentCode c) = String.utf8EncodeChar c := by
  rw [percentCode, if_pos h]
  exact List.append_nil _

theorem opensDigit_coded {c : Char} (h : urlSafe c = false) (bytes : List UInt8) :
    opensDigit (String.utf8EncodeChar c ++ bytes) = false ∧
      opensDigit (encodeUtf8 (percentCode c) ++ bytes) = false := by
  rcases List.exists_cons_of_ne_nil (utf8EncodeChar_ne_nil c) with ⟨b, others, hbytes⟩
  have hdigit : digitOf? b = none := digitOf?_of_mem_coded h (hbytes ▸ List.mem_cons_self)
  constructor
  · rw [hbytes]
    change (digitOf? b).isSome = false
    rw [hdigit]
    rfl
  · rw [percentCode, if_neg (by rw [h]; exact Bool.false_ne_true), hbytes]
    rfl

/-- The code of a character stands for the bytes of the character, unless it is a percent sign. -/
theorem percentDecode_percentCode {c : Char} (hsign : c ≠ '%') (bytes : List UInt8) :
    percentDecode (encodeUtf8 (percentCode c) ++ bytes) =
      String.utf8EncodeChar c ++ percentDecode bytes := by
  by_cases hsafe : urlSafe c = true
  · rw [encodeUtf8_percentCode_of_safe hsafe]
    exact percentDecode_append (sign_not_mem_utf8EncodeChar hsign) bytes
  · rw [percentCode, if_neg hsafe]
    exact percentDecode_percentBytes _ bytes

theorem opensDigit_percentEncode (s : List Char) :
    opensDigit (encodeUtf8 (percentEncode s)) = opensDigit (encodeUtf8 s) := by
  cases s with
  | nil => rfl
  | cons c rest =>
      rw [percentEncode_cons, encodeUtf8_append, encodeUtf8_cons]
      by_cases hsafe : urlSafe c = true
      · rw [encodeUtf8_percentCode_of_safe hsafe, utf8EncodeChar_of_lt (lt_of_urlSafe hsafe)]
        rfl
      · rw [Bool.not_eq_true] at hsafe
        rw [(opensDigit_coded hsafe _).1, (opensDigit_coded hsafe _).2]

/-- Encoding makes no escape and breaks none: behind a percent sign stand two digits afterwards
    exactly if they did before. -/
theorem opensEscape_percentEncode (s : List Char) :
    opensEscape (encodeUtf8 (percentEncode s)) = opensEscape (encodeUtf8 s) := by
  cases s with
  | nil => rfl
  | cons c rest =>
      rw [percentEncode_cons, encodeUtf8_append, encodeUtf8_cons]
      unfold opensEscape
      by_cases hsafe : urlSafe c = true
      · rw [encodeUtf8_percentCode_of_safe hsafe, utf8EncodeChar_of_lt (lt_of_urlSafe hsafe)]
        exact congrArg (_ && ·) (opensDigit_percentEncode rest)
      · rw [Bool.not_eq_true] at hsafe
        rw [(opensDigit_coded hsafe _).1, (opensDigit_coded hsafe _).2, Bool.false_and,
          Bool.false_and]

/-- A digit is the byte of a safe character. -/
theorem exists_of_opensDigit {s : List Char} (h : opensDigit (encodeUtf8 s) = true) :
    ∃ c rest, s = c :: rest ∧ urlSafe c = true ∧
      (digitOf? (UInt8.ofNat c.toNat)).isSome = true := by
  cases s with
  | nil => exact absurd h Bool.noConfusion
  | cons c rest =>
      rw [encodeUtf8_cons] at h
      by_cases hsafe : urlSafe c = true
      · rw [utf8EncodeChar_of_lt (lt_of_urlSafe hsafe)] at h
        exact ⟨c, rest, rfl, hsafe, h⟩
      · rw [Bool.not_eq_true] at hsafe
        rw [(opensDigit_coded hsafe _).1] at h
        exact absurd h Bool.noConfusion

/-- So the bytes of an escape are those of two safe characters. -/
theorem exists_of_opensEscape {s : List Char} (h : opensEscape (encodeUtf8 s) = true) :
    ∃ high low rest byte, s = high :: low :: rest ∧
      urlSafe high = true ∧ urlSafe low = true ∧
      escapedByte? 0x25 (UInt8.ofNat high.toNat) (UInt8.ofNat low.toNat) = some byte := by
  rw [opensEscape, Bool.and_eq_true] at h
  rcases exists_of_opensDigit h.1 with ⟨high, others, rfl, hhigh, hh⟩
  have htail : (encodeUtf8 (high :: others)).tail = encodeUtf8 others := by
    rw [encodeUtf8_cons, utf8EncodeChar_of_lt (lt_of_urlSafe hhigh)]
    rfl
  rw [htail] at h
  rcases exists_of_opensDigit h.2 with ⟨low, rest, rfl, hlow, hl⟩
  rcases exists_escapedByte hh hl with ⟨byte, hbyte⟩
  exact ⟨high, low, rest, byte, rfl, hhigh, hlow, hbyte⟩

/-- A text and its encoding stand for the same bytes. -/
theorem percentDecode_percentEncode (s : List Char) :
    percentDecode (encodeUtf8 (percentEncode s)) = percentDecode (encodeUtf8 s) := by
  -- An escape takes three characters at once, so the induction is on the length.
  match s with
  | [] => rfl
  | c :: rest =>
      by_cases hsign : c = '%'
      · have hfront : ∀ t, encodeUtf8 ('%' :: t) = 0x25 :: encodeUtf8 t := fun _ => rfl
        have hcode : percentEncode ('%' :: rest) = '%' :: percentEncode rest := rfl
        rw [hsign, hcode, hfront, hfront]
        by_cases hopens : opensEscape (encodeUtf8 rest) = true
        · rcases exists_of_opensEscape hopens with
            ⟨high, low, more, byte, hrest, hhigh, hlow, hbyte⟩
          have hkept : percentEncode rest = high :: low :: percentEncode more := by
            rw [hrest, percentEncode_cons, percentEncode_cons, percentCode, percentCode,
              if_pos hhigh, if_pos hlow]
            rfl
          have hdecode : ∀ t, percentDecode (0x25 :: encodeUtf8 (high :: low :: t)) =
              byte :: percentDecode (encodeUtf8 t) := by
            intro t
            rw [encodeUtf8_cons, encodeUtf8_cons, utf8EncodeChar_of_lt (lt_of_urlSafe hhigh),
              utf8EncodeChar_of_lt (lt_of_urlSafe hlow)]
            exact percentDecode_escape hbyte _
          rw [hkept, hrest, hdecode, hdecode, percentDecode_percentEncode more]
        · rw [Bool.not_eq_true] at hopens
          have hopens' := (opensEscape_percentEncode rest).trans hopens
          rw [percentDecode_sign hopens, percentDecode_sign hopens',
            percentDecode_percentEncode rest]
      · rw [percentEncode_cons, encodeUtf8_append, encodeUtf8_cons,
          percentDecode_percentCode hsign,
          percentDecode_append (sign_not_mem_utf8EncodeChar hsign),
          percentDecode_percentEncode rest]
termination_by s.length
decreasing_by
  · rw [hrest]
    simp only [List.length_cons]
    omega
  · exact Nat.lt_succ_self _
  · exact Nat.lt_succ_self _

/-- A safe character is none of those that end a destination or its line. -/
theorem isBlank_of_urlSafe {c : Char} (h : urlSafe c = true) : isBlank c = false := by
  rcases bounds_of_urlSafe h with ⟨hlow, hhigh⟩
  rw [← Bool.not_eq_true]
  intro hblank
  simp only [isBlank, Bool.or_eq_true, Bool.and_eq_true, decide_eq_true_eq, beq_iff_eq] at hblank
  omega

theorem not_mem_marks_of_urlSafe {c : Char} (h : urlSafe c = true) :
    c ∉ "\"<>|\\\n".toList := by
  have hmarks : ∀ d ∈ "\"<>|\\\n".toList, (!urlSafe d) = true := List.all_eq_true.mp (by decide)
  intro hmem
  have hcoded := hmarks c hmem
  rw [h] at hcoded
  exact Bool.noConfusion hcoded

/-- Encoded URLs are in a normal form that stands for the same bytes. Encoding them again changes
    nothing, encoding goes piece by piece, and what is written are letters and digits of ASCII and
    the marks of URLs, so no blank, quotation mark, angle bracket, pipe, backslash or line end. -/
theorem encodeUrl_normalForm (u a b : String) :
    encodeUrl (encodeUrl u) = encodeUrl u ∧
      encodeUrl (a ++ b) = encodeUrl a ++ encodeUrl b ∧
      (∀ c ∈ (encodeUrl u).toList,
        (c.isAlphanum = true ∨ c ∈ ";,/?:@&=+$-_.!~*'()#%".toList) ∧
          isBlank c = false ∧ c ∉ "\"<>|\\\n".toList) ∧
      percentDecode (encodeUtf8 (encodeUrl u).toList) = percentDecode (encodeUtf8 u.toList) := by
  have hlist : ∀ s, (encodeUrl s).toList = percentEncode s.toList := fun _ => String.toList_ofList
  have hsafe : ∀ c ∈ (encodeUrl u).toList, urlSafe c = true := by
    intro c hc
    rw [hlist] at hc
    exact urlSafe_of_mem_percentEncode _ c hc
  refine ⟨?_, ?_, fun c hc => ⟨?_, isBlank_of_urlSafe (hsafe c hc),
    not_mem_marks_of_urlSafe (hsafe c hc)⟩, ?_⟩
  · rw [encodeUrl, percentEncode_of_safe _ hsafe, String.ofList_toList]
  · rw [encodeUrl, String.toList_append, percentEncode_append, String.ofList_append]
    rfl
  · have hc := hsafe c hc
    rw [urlSafe, Bool.or_eq_true, List.contains_iff_mem] at hc
    exact hc
  · rw [hlist]
    exact percentDecode_percentEncode u.toList

end Text

end PageDistill
