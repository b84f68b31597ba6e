import PageDistill.Proofs.Text.PercentDecoding

/-!
# Written Bytes Are Read Back

The bytes of a text decode to the text.

The decoder looks at the first byte of a character for its width, and checks the other bytes
against the ranges of well-formed sequences. The bytes that are written for a character pass: its
leading bits fall into the range of their width, and where the ranges are narrowed they exclude
exactly what a shorter form would hold, the surrogates and what lies past the last code point, none
of which a character is.

## Main definitions

* `groupByte`: The byte of a group of six bits.

## Theorems

* `utf8Front_written`: A character is read off the front of its bytes.
* `decodeUtf8_encodeUtf8`: A text is read back from its bytes.
-/

namespace PageDistill

namespace Text

/-- The byte behind the first one that holds the six lowest bits of a number. -/
def groupByte (n : Nat) : UInt8 := UInt8.ofNat (n % 64 + 128)

theorem toNat_written {n : Nat} (h : n < 256) : (UInt8.ofNat n).toNat = n :=
  UInt8.toNat_ofNat_of_lt' h

/-- A byte of a group holds its six bits and the mark of a continuation. -/
theorem toNat_groupByte (n : Nat) : (groupByte n).toNat = n % 64 + 128 := by
  have hlt : n % 64 < 64 := Nat.mod_lt n (by decide)
  exact toNat_written (by omega)

theorem isContinuation_groupByte (n : Nat) : isContinuation (groupByte n) = true := by
  unfold isContinuation
  rw [toNat_groupByte, Bool.and_eq_true, decide_eq_true_eq, decide_eq_true_eq]
  omega

/-- A group behind one of the four first bytes with a narrower range. -/
theorem isSecond_groupByte {lead n : Nat} (hlead : lead < 256)
    (hshort : lead = 0xE0 → 32 ≤ n % 64) (hsurrogate : lead = 0xED → n % 64 < 32)
    (hshorter : lead = 0xF0 → 16 ≤ n % 64) (hlast : lead = 0xF4 → n % 64 < 16) :
    isSecond (UInt8.ofNat lead) (groupByte n) = true := by
  unfold isSecond
  rw [isContinuation_groupByte, Bool.true_and, toNat_written hlead]
  -- Four first bytes narrow the range of the second one, each in its own way.
  split
  · rw [decide_eq_true_eq, toNat_groupByte]
    have := hshort rfl
    omega
  · rw [decide_eq_true_eq, toNat_groupByte]
    have := hsurrogate rfl
    omega
  · rw [decide_eq_true_eq, toNat_groupByte]
    have := hshorter rfl
    omega
  · rw [decide_eq_true_eq, toNat_groupByte]
    have := hlast rfl
    omega
  · rfl

/-- The leading bits and the groups make up the character they were taken from. -/
theorem assemble_groupBytes (c : Char) (lead : Nat) (groups : List Nat)
    (h : groups.foldl (fun n group => n * 64 + group % 64) lead = c.toNat) :
    assemble lead (groups.map groupByte) = c := by
  have hgroup : ∀ group, (groupByte group).toNat - 0x80 = group % 64 := by
    intro group
    rw [toNat_groupByte, Nat.add_sub_cancel]
  unfold assemble
  rw [List.foldl_map]
  simp only [hgroup, h, Char.ofNat_toNat]

section

variable {c : Char} (rest : List UInt8)

/-- A character of two bytes is read back. -/
theorem utf8Front_two (hlow : 128 ≤ c.toNat) (hhigh : c.toNat < 2048) :
    utf8Front (UInt8.ofNat (c.toNat / 64 % 32 + 192)) (groupByte c.toNat :: rest) =
      .character c 2 := by
  unfold utf8Front
  simp only [toNat_written (show c.toNat / 64 % 32 + 192 < 256 by omega)]
  rw [if_neg (by omega), if_neg (by omega), if_pos (by omega),
    if_pos (isContinuation_groupByte _)]
  have hc := assemble_groupBytes c (c.toNat / 64 % 32 + 192 - 0xC0) [c.toNat]
    (by simp only [List.foldl_cons, List.foldl_nil]; omega)
  exact congrArg (Utf8Front.character · 2) hc

/-- A character of three bytes is read back. -/
theorem utf8Front_three (hlow : 2048 ≤ c.toNat) (hhigh : c.toNat < 65536) :
    utf8Front (UInt8.ofNat (c.toNat / 4096 % 16 + 224))
        (groupByte (c.toNat / 64) :: groupByte c.toNat :: rest) =
      .character c 3 := by
  have hvalid : c.toNat < 0xD800 ∨ 0xDFFF < c.toNat ∧ c.toNat < 0x110000 := c.valid
  have hlead : c.toNat / 4096 % 16 + 224 < 256 := by omega
  have hsecond : isSecond (UInt8.ofNat (c.toNat / 4096 % 16 + 224)) (groupByte (c.toNat / 64)) =
      true := isSecond_groupByte hlead (by omega) (by omega) (by omega) (by omega)
  unfold utf8Front
  simp only [toNat_written hlead, hsecond, isContinuation_groupByte, Bool.not_true]
  rw [if_neg (by omega), if_neg (by omega), if_neg (by omega), if_pos (by omega),
    if_neg Bool.false_ne_true, if_neg Bool.false_ne_true, if_pos (by omega)]
  have hc := assemble_groupBytes c (c.toNat / 4096 % 16 + 224 - 0xE0)
    [c.toNat / 64, c.toNat] (by simp only [List.foldl_cons, List.foldl_nil]; omega)
  exact congrArg (Utf8Front.character · 3) hc

/-- A character of four bytes is read back. -/
theorem utf8Front_four (hlow : 65536 ≤ c.toNat) :
    utf8Front (UInt8.ofNat (c.toNat / 262144 % 8 + 240))
        (groupByte (c.toNat / 4096) :: groupByte (c.toNat / 64) :: groupByte c.toNat :: rest) =
      .character c 4 := by
  have hvalid : c.toNat < 0xD800 ∨ 0xDFFF < c.toNat ∧ c.toNat < 0x110000 := c.valid
  have hlead : c.toNat / 262144 % 8 + 240 < 256 := by omega
  have hsecond : isSecond (UInt8.ofNat (c.toNat / 262144 % 8 + 240))
      (groupByte (c.toNat / 4096)) = true :=
    isSecond_groupByte hlead (by omega) (by omega) (by omega) (by omega)
  unfold utf8Front
  simp only [toNat_written hlead, hsecond, isContinuation_groupByte, Bool.not_true]
  rw [if_neg (by omega), if_neg (by omega), if_neg (by omega), if_pos (by omega),
    if_neg Bool.false_ne_true, if_neg Bool.false_ne_true, if_neg (by omega), if_pos True.intro]
  have hc := assemble_groupBytes c (c.toNat / 262144 % 8 + 240 - 0xF0)
    [c.toNat / 4096, c.toNat / 64, c.toNat]
    (by simp only [List.foldl_cons, List.foldl_nil]; omega)
  exact congrArg (Utf8Front.character · 4) hc

end

/-- A character is read off the front of its bytes, whatever follows them. -/
theorem utf8Front_written (c : Char) (rest : List UInt8) :
    ∃ b others, String.utf8EncodeChar c = b :: others ∧
      utf8Front b (others ++ rest) = .character c (others.length + 1) := by
  -- The bytes by the width of the character.
  have hbytes : String.utf8EncodeChar c =
      if c.toNat ≤ 127 then [UInt8.ofNat c.toNat]
      else if c.toNat ≤ 2047 then [UInt8.ofNat (c.toNat / 64 % 32 + 192), groupByte c.toNat]
      else if c.toNat ≤ 65535 then
        [UInt8.ofNat (c.toNat / 4096 % 16 + 224), groupByte (c.toNat / 64), groupByte c.toNat]
      else
        [UInt8.ofNat (c.toNat / 262144 % 8 + 240), groupByte (c.toNat / 4096),
          groupByte (c.toNat / 64), groupByte c.toNat] := rfl
  rw [hbytes]
  by_cases hone : c.toNat ≤ 127
  · rw [if_pos hone]
    refine ⟨_, _, rfl, ?_⟩
    unfold utf8Front
    simp only [toNat_written (show c.toNat < 256 by omega)]
    rw [if_pos (by omega), Char.ofNat_toNat]
    rfl
  · rw [if_neg hone]
    by_cases htwo : c.toNat ≤ 2047
    · rw [if_pos htwo]
      exact ⟨_, _, rfl, utf8Front_two rest (by omega) (by omega)⟩
    · rw [if_neg htwo]
      by_cases hthree : c.toNat ≤ 65535
      · rw [if_pos hthree]
        exact ⟨_, _, rfl, utf8Front_three rest (by omega) (by omega)⟩
      · rw [if_neg hthree]
        exact ⟨_, _, rfl, utf8Front_four rest (by omega)⟩

/-- The position only counts in faults. -/
theorem decodeUtf8From_encodeUtf8 (s : List Char) (position : Nat) :
    decodeUtf8From position (encodeUtf8 s) = .ok s := by
  induction s generalizing position with
  | nil => rw [encodeUtf8, List.flatMap_nil, decodeUtf8From]
  | cons c s ih =>
      rcases utf8Front_written c (encodeUtf8 s) with ⟨b, others, hbytes, hfront⟩
      rw [encodeUtf8_cons, hbytes, List.cons_append, decodeUtf8From, hfront]
      simp only [Nat.add_sub_cancel, List.drop_left, ih]
      rfl

/-- A text is read back from its bytes. -/
theorem decodeUtf8_encodeUtf8 (s : List Char) : decodeUtf8 (encodeUtf8 s) = .ok s :=
  decodeUtf8From_encodeUtf8 s 0

end Text

end PageDistill
