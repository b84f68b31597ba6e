import Mathlib.Data.List.Infix
import PageDistill.Json.Reader

/-!
# The Height of Structured Data

How deep a value is nested, and how deep it can be if it was read from a text.

A list or an object is one higher than the highest value in it, and every other value has no height.
Each of them begins with an opening bracket of its own, and the brackets of the values in it come
after that. So a value that was read is not higher than the number of opening brackets in the text,
and whoever descends into it by calls one inside another, or has descended to read it, made no more
calls than that.

Reading leaves a rest of the text, and the brackets of the rest are not those of the value. The
induction is on the measure of the reader, with the brackets of the rest on the lower side.

## Main definitions

* `Value.height`: The height of a value.
* `openings`: The number of opening brackets in a text.

## Theorems

* `readScalar_suffix`: A word or a number leaves an end of the text.
* `readsBounded`: What is read has at most the brackets that are not left.
* `read_height_le`: The value of a text is not higher than its brackets.
-/

namespace PageDistill

namespace Json

mutual

/-- How deep a value is nested. -/
def Value.height : Value → Nat
  | .array items => heightOfItems items + 1
  | .object members => heightOfMembers members + 1
  | _ => 0

/-- The greatest height of some values. -/
def heightOfItems : List Value → Nat
  | [] => 0
  | item :: items => max item.height (heightOfItems items)

/-- The greatest height of the values of some members. -/
def heightOfMembers : List (String × Value) → Nat
  | [] => 0
  | (_, value) :: members => max value.height (heightOfMembers members)

end

theorem height_le_heightOfItems {items : List Value} {item : Value} (h : item ∈ items) :
    item.height ≤ heightOfItems items := by
  induction items with
  | nil => exact nomatch h
  | cons first items ih =>
      rw [heightOfItems]
      rcases List.mem_cons.mp h with rfl | hmem
      · exact Nat.le_max_left _ _
      · exact Nat.le_trans (ih hmem) (Nat.le_max_right _ _)

/-- The number of opening brackets in a text. -/
def openings (s : List Char) : Nat := s.countP fun c => c == '[' || c == '\x7b'

/-- What is left of a text opens no more than the text. -/
theorem openings_le_of_suffix {rest s : List Char} (h : rest <:+ s) :
    openings rest ≤ openings s := h.sublist.countP_le

theorem skipBlank_suffix (s : List Char) : skipBlank s <:+ s := List.dropWhile_suffix _

theorem openings_skipBlank_le (s : List Char) : openings (skipBlank s) ≤ openings s :=
  openings_le_of_suffix (skipBlank_suffix s)

/-- A member that is put among others is higher than they are, or it is not. -/
theorem heightOfMembers_put_le (members : List (String × Value)) (key : String) (value : Value) :
    heightOfMembers (Entries.put members key value) ≤
      max (heightOfMembers members) value.height := by
  induction members with
  | nil => simp [Entries.put, heightOfMembers]
  | cons member members ih =>
      obtain ⟨other, v⟩ := member
      rw [Entries.put]
      by_cases hkey : other = key
      · rw [if_pos hkey, heightOfMembers, heightOfMembers]
        omega
      · rw [if_neg hkey, heightOfMembers, heightOfMembers]
        omega

theorem readUnits?_suffix {s rest : List Char} {units : List Nat}
    (h : readUnits? s = some (units, rest)) : rest <:+ s := by
  induction s using readUnits?.induct generalizing units with
  | case1 => exact nomatch h
  | case2 s =>
      rw [readUnits?, Option.some.injEq, Prod.mk.injEq] at h
      rw [← h.2]
      exact List.suffix_cons _ _
  -- An escape is read over before the rest, and so is a plain character.
  | case3 a b c d s ih =>
      rw [readUnits?] at h
      simp only [Option.bind_eq_bind, Option.bind_eq_some_iff, Option.pure_def,
        Option.some.injEq, Prod.mk.injEq] at h
      rcases h with ⟨_, _, ⟨read, rest'⟩, hread, _, rfl⟩
      exact (ih hread).trans (List.suffix_append ['\\', 'u', a, b, c, d] s)
  | case4 letter s hletter ih =>
      rw [readUnits?.eq_4 _ _ hletter] at h
      simp only [Option.bind_eq_bind, Option.bind_eq_some_iff, Option.pure_def,
        Option.some.injEq, Prod.mk.injEq] at h
      rcases h with ⟨_, _, ⟨read, rest'⟩, hread, _, rfl⟩
      exact (ih hread).trans (List.suffix_append ['\\', letter] s)
  | case5 c s hquote hcode hescape hplain =>
      rw [readUnits?.eq_5 _ _ hquote hcode hescape, if_pos hplain] at h
      exact nomatch h
  | case6 c s hquote hcode hescape hplain ih =>
      rw [readUnits?.eq_5 _ _ hquote hcode hescape, if_neg hplain] at h
      simp only [Option.bind_eq_bind, Option.bind_eq_some_iff, Option.pure_def,
        Option.some.injEq, Prod.mk.injEq] at h
      rcases h with ⟨⟨read, rest'⟩, hread, _, rfl⟩
      exact (ih hread).trans (List.suffix_cons c s)

/-- A string is read off the front. -/
theorem readString_suffix {s rest : List Char} {text : String}
    (h : readString s = .ok (text, rest)) : rest <:+ s := by
  unfold readString at h
  split at h
  · rename_i units rest' hunits
    rw [Except.ok.injEq, Prod.mk.injEq] at h
    rw [← h.2]
    exact readUnits?_suffix hunits
  · exact nomatch h

theorem readFraction_suffix (s : List Char) : (readFraction s).2 <:+ s := by
  unfold readFraction
  split
  · simp only
    split
    · exact List.suffix_rfl
    · exact (List.dropWhile_suffix _).trans (List.suffix_cons _ _)
  · exact List.suffix_rfl

theorem readExponent_suffix (s : List Char) : (readExponent s).2 <:+ s := by
  unfold readExponent
  split
  · rename_i e rest
    split
    · split
      rename_i negative digits hsign
      -- Whatever the sign is, the digits stand behind it.
      have hdigits : digits <:+ rest := by
        split at hsign <;> rw [Prod.mk.injEq] at hsign <;> rw [← hsign.2]
        all_goals exact List.suffix_cons _ _
      simp only
      split
      · exact List.suffix_rfl
      · exact ((List.dropWhile_suffix _).trans hdigits).trans (List.suffix_cons e rest)
    · exact List.suffix_rfl
  · exact List.suffix_rfl

/-- A number leaves an end of the text, and it has no height. -/
theorem readNumber_suffix {negative : Bool} {s rest : List Char} {value : Value}
    (h : readNumber negative s = .ok (value, rest)) : rest <:+ s ∧ value.height = 0 := by
  unfold readNumber at h
  extract_lets whole at h
  -- A number is read in three parts, each of which leaves an end of what it was given.
  have hrest : whole.2 <:+ s := by
    unfold whole
    split
    · exact List.suffix_cons _ _
    · exact List.dropWhile_suffix _
  have hend := ((readExponent_suffix (readFraction whole.2).2).trans
    (readFraction_suffix whole.2)).trans hrest
  simp only at h
  split at h
  · exact nomatch h
  · split at h
    · split at h
      · exact nomatch h
      · rw [Except.ok.injEq, Prod.mk.injEq] at h
        rw [← h.1, ← h.2]
        exact ⟨hend, rfl⟩
    · rw [Except.ok.injEq, Prod.mk.injEq] at h
      rw [← h.1, ← h.2]
      exact ⟨hend, rfl⟩

/-- A word or a number leaves an end of the text, and it has no height. -/
theorem readScalar_suffix {s rest : List Char} {value : Value}
    (h : readScalar s = .ok (value, rest)) : rest <:+ s ∧ value.height = 0 := by
  unfold readScalar at h
  split at h
  · rename_i found hfound
    rw [Except.ok.injEq] at h
    rw [h] at hfound
    -- One of the words was found. Each stands for a value without height.
    rcases List.exists_of_findSome?_eq_some hfound with ⟨⟨word, scalar⟩, hmem, hword⟩
    simp only [Option.map_eq_some_iff, Prod.mk.injEq] at hword
    rcases hword with ⟨left, hleft, rfl, rfl⟩
    refine ⟨?_, ?_⟩
    · unfold dropWord? at hleft
      simp only at hleft
      split at hleft
      · rw [← Option.some.inj hleft]
        exact List.drop_suffix _ s
      · exact nomatch hleft
    · simp only [words, List.mem_cons, List.not_mem_nil, or_false, Prod.mk.injEq] at hmem
      rcases hmem with ⟨_, rfl⟩ | ⟨_, rfl⟩ | ⟨_, rfl⟩ | ⟨_, rfl⟩ | ⟨_, rfl⟩ | ⟨_, rfl⟩ <;> rfl
  · split at h
    · have hnumber := readNumber_suffix h
      exact ⟨hnumber.1.trans (List.suffix_cons _ _), hnumber.2⟩
    · exact readNumber_suffix h

/-- A front whose value was changed. -/
theorem Front.map_eq_ok {α β : Type} {front : Front α} {make : α → β} {b : β} {rest : List Char}
    (h : (front.map fun (a, rest) => (make a, rest)) = .ok (b, rest)) :
    ∃ a, front = .ok (a, rest) ∧ make a = b := by
  cases front with
  | error fault => exact nomatch h
  | ok found =>
      obtain ⟨a, left⟩ := found
      rw [Except.map, Except.ok.injEq, Prod.mk.injEq] at h
      rw [h.2]
      exact ⟨a, rfl, h.1⟩

/-- What is read with some measure has at most the brackets that are not left. Members are read
    after others, whose height does not count. -/
structure ReadsBounded (depth : Nat) : Prop where
  value : ∀ {s value rest}, readValue depth s = .ok (value, rest) →
    value.height + openings rest ≤ openings s
  items : ∀ {s items rest}, readItems depth s = .ok (items, rest) →
    heightOfItems items + openings rest ≤ openings s
  members : ∀ {before s members rest}, readMembers depth before s = .ok (members, rest) →
    openings rest ≤ openings s ∧
      heightOfMembers members ≤ max (heightOfMembers before) (openings s - openings rest)

theorem openings_cons_le (c : Char) (rest : List Char) : openings rest ≤ openings (c :: rest) :=
  openings_le_of_suffix (List.suffix_cons c rest)

/-- An opening bracket or brace opens once. -/
theorem openings_open {c : Char} (h : c = '[' ∨ c = '\x7b') (rest : List Char) :
    openings (c :: rest) = openings rest + 1 :=
  List.countP_cons_of_pos (by rcases h with rfl | rfl <;> rfl)

/-- What stands behind a mark that follows blank space. -/
theorem openings_behind {c : Char} {s rest : List Char} (h : skipBlank s = c :: rest) :
    openings rest ≤ openings s := by
  have hblank := openings_skipBlank_le s
  rw [h] at hblank
  exact Nat.le_trans (openings_cons_le c rest) hblank

section

variable {depth : Nat} (ih : ReadsBounded depth)

include ih

/-- A list or an object has its own bracket, and what is in it has those behind. -/
theorem readValue_bounded {s rest : List Char} {value : Value}
    (h : readValue (depth + 1) s = .ok (value, rest)) :
    value.height + openings rest ≤ openings s := by
  unfold readValue at h
  split at h
  · rename_i s
    rcases Front.map_eq_ok h with ⟨text, htext, rfl⟩
    change 0 + openings rest ≤ _
    rw [Nat.zero_add]
    exact Nat.le_trans (openings_le_of_suffix (readString_suffix htext)) (openings_cons_le '"' s)
  · rename_i s
    -- The bracket that opens an array counts for the level it adds.
    rw [openings_open (Or.inl rfl)]
    split at h
    · rename_i left hclose
      rw [Except.ok.injEq, Prod.mk.injEq] at h
      have hleft := openings_behind hclose
      rw [← h.1, ← h.2, Value.height, heightOfItems]
      omega
    · rcases Front.map_eq_ok h with ⟨items, hread, rfl⟩
      have hitems := ih.items hread
      have hblank := openings_skipBlank_le s
      rw [Value.height]
      omega
  · rename_i s
    -- The brace that opens an object does as well.
    rw [openings_open (Or.inr rfl)]
    split at h
    · rename_i left hclose
      rw [Except.ok.injEq, Prod.mk.injEq] at h
      have hleft := openings_behind hclose
      rw [← h.1, ← h.2, Value.height, heightOfMembers]
      omega
    · rcases Front.map_eq_ok h with ⟨members, hread, rfl⟩
      have hmembers := ih.members hread
      have hblank := openings_skipBlank_le s
      rw [heightOfMembers] at hmembers
      rw [Value.height]
      omega
  · have hscalar := readScalar_suffix h
    rw [hscalar.2, Nat.zero_add]
    exact openings_le_of_suffix hscalar.1

/-- Items are at most as high as what was read for them opens. -/
theorem readItems_bounded {s rest : List Char} {items : List Value}
    (h : readItems (depth + 1) s = .ok (items, rest)) :
    heightOfItems items + openings rest ≤ openings s := by
  unfold readItems at h
  split at h
  · exact nomatch h
  · rename_i item left hread
    have hitem := ih.value hread
    split at h
    · rename_i left' hclose
      rw [Except.ok.injEq, Prod.mk.injEq] at h
      have hleft := openings_behind hclose
      rw [← h.1, ← h.2, heightOfItems, heightOfItems]
      omega
    · rename_i left' hcomma
      rcases Front.map_eq_ok h with ⟨items, hread, rfl⟩
      have hitems := ih.items hread
      have hleft := openings_behind hcomma
      have hblank := openings_skipBlank_le left'
      rw [heightOfItems]
      omega
    · exact nomatch h

/-- So are members, or as high as one that was there before. -/
theorem readMembers_bounded {before members : List (String × Value)} {s rest : List Char}
    (h : readMembers (depth + 1) before s = .ok (members, rest)) :
    openings rest ≤ openings s ∧
      heightOfMembers members ≤ max (heightOfMembers before) (openings s - openings rest) := by
  unfold readMembers at h
  split at h
  · rename_i s
    have hquote := openings_cons_le '"' s
    split at h
    · exact nomatch h
    · rename_i key left hkey
      have hstring := openings_le_of_suffix (readString_suffix hkey)
      split at h
      · rename_i left' hcolon
        have hleft := openings_behind hcolon
        have hblank := openings_skipBlank_le left'
        split at h
        · exact nomatch h
        · rename_i value behind hread
          have hvalue := ih.value hread
          -- The new member may take the place of an earlier one, which makes nothing higher.
          have hput := heightOfMembers_put_le before key value
          simp only at h
          split at h
          · rename_i end' hclose
            rw [Except.ok.injEq, Prod.mk.injEq] at h
            have hend := openings_behind hclose
            rw [← h.1, ← h.2]
            omega
          · rename_i more hcomma
            have hmembers := ih.members h
            have hmore := openings_behind hcomma
            have hblank' := openings_skipBlank_le more
            omega
          · exact nomatch h
      · exact nomatch h
  · exact nomatch h

end

/-- Whatever the depth allows, a value is at most as high as its text opens. -/
theorem readsBounded (depth : Nat) : ReadsBounded depth := by
  induction depth with
  | zero => exact ⟨nofun, nofun, nofun⟩
  | succ depth ih => exact ⟨readValue_bounded ih, readItems_bounded ih, readMembers_bounded ih⟩

/-- The value of a text is not nested deeper than the text has opening brackets. -/
theorem read_height_le {s : List Char} {value : Value} (h : read s = .ok value) :
    value.height ≤ openings s := by
  unfold read at h
  split at h
  · exact nomatch h
  · rename_i found rest hread
    have hbounded := (readsBounded _).value hread
    have hblank := openings_skipBlank_le s
    split at h
    · rw [← Except.ok.inj h]
      omega
    · exact nomatch h

end Json

end PageDistill
