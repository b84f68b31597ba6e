/-!
# Blank Characters, Trimming and Cutting

Which characters count as blank space, and what trimming a text by a class of
characters means.

Pages hold more kinds of blank than the ASCII ones: no-break spaces, the
typographic spaces of U+2000–U+200A, the line and paragraph separators. All of
them are trimmed from the ends of a text and all of them make a text blank.
The zero-width characters are not blank; only the text of an image's
alternative drops those as well, and says so where it is rendered.

Every text operation works on a list of characters, so that it is a recursion
on the data. Text inside data types is a `String`.

## Main definitions

* `isBlank`: The characters that count as blank space.
* `trimEndBy`, `trimBy`: Dropping a class of characters from the end, and from
  both ends.
* `trimEnd`, `trim`: The same for blank characters.
* `isAllBlank`: A text with nothing but blank in it.
* `splitOn`, `joinWith`: Cutting at a character and joining with a separator.
* `occursIn`: Whether a text occurs inside another.

## Theorems

* `trim_eq_nil_iff`: Trimming leaves nothing exactly when all is blank.
* `joinWith_splitOn`: Joining the pieces with the cut character gives the text
  back.
* `splitOn_joinWith`: Cutting a joined text gives the pieces back.
* `splitOn_append`, `joinWith_around`: Cutting and joining in parts.
* `mem_joinWith`: What stands in a joined text.
-/

namespace PageDistill

namespace Text

/-- Blank space: the white space of Unicode together with the four information
    separators U+001C–U+001F. -/
def isBlank (c : Char) : Bool :=
  let n := c.toNat
  (0x9 ≤ n && n ≤ 0xD) || (0x1C ≤ n && n ≤ 0x20) || n == 0x85 || n == 0xA0 || n == 0x1680 ||
    (0x2000 ≤ n && n ≤ 0x200A) || n == 0x2028 || n == 0x2029 || n == 0x202F || n == 0x205F ||
    n == 0x3000

/-- Drops the longest run of characters of the class from the end. -/
def trimEndBy (p : Char → Bool) (s : List Char) : List Char :=
  (s.reverse.dropWhile p).reverse

/-- Drops the longest runs of characters of the class from both ends. -/
def trimBy (p : Char → Bool) (s : List Char) : List Char :=
  trimEndBy p (s.dropWhile p)

/-- Drops trailing blank space. -/
def trimEnd (s : List Char) : List Char := trimEndBy isBlank s

/-- Drops blank space from both ends. -/
def trim (s : List Char) : List Char := trimBy isBlank s

/-- A text with no character that is not blank; the empty text is one. -/
def isAllBlank (s : List Char) : Bool := s.all isBlank

/-- The pieces between the occurrences of a character, in order. A text without
    the character is one piece, and so is the empty text. -/
def splitOn (sep : Char) : List Char → List (List Char)
  | [] => [[]]
  | c :: rest =>
    if c = sep then [] :: splitOn sep rest
    else
      match splitOn sep rest with
      | [] => [[c]]
      | piece :: pieces => (c :: piece) :: pieces

/-- The pieces one after the other, with the separator between each two. -/
def joinWith (sep : List Char) : List (List Char) → List Char
  | [] => []
  | [piece] => piece
  | piece :: pieces => piece ++ sep ++ joinWith sep pieces

/-- Whether a text occurs inside another; the empty text occurs in every
    text. -/
def occursIn (part : List Char) : List Char → Bool
  | [] => part.isEmpty
  | c :: rest => part.isPrefixOf (c :: rest) || occursIn part rest

/-- Dropping from the front leaves nothing exactly when the whole text is of
    the class. -/
theorem dropWhile_eq_nil_iff (p : Char → Bool) (s : List Char) :
    s.dropWhile p = [] ↔ ∀ c ∈ s, p c := by
  induction s with
  | nil => simp
  | cons c rest ih =>
      rw [List.dropWhile_cons]
      by_cases hc : p c = true
      · simp [hc, ih]
      · simp [hc]

/-- Trimming the end leaves nothing exactly when the whole text is of the
    class. -/
theorem trimEndBy_eq_nil_iff (p : Char → Bool) (s : List Char) :
    trimEndBy p s = [] ↔ ∀ c ∈ s, p c := by
  rw [trimEndBy, List.reverse_eq_nil_iff, dropWhile_eq_nil_iff]
  simp only [List.mem_reverse]

/-- Nothing is dropped from a text without a character of the class. -/
theorem trimBy_eq_self {p : Char → Bool} {s : List Char} (h : ∀ c ∈ s, p c = false) :
    trimBy p s = s := by
  have hdrop : ∀ t : List Char, (∀ c ∈ t, p c = false) → t.dropWhile p = t := by
    intro t ht
    cases t with
    | nil => rfl
    | cons c rest =>
        rw [List.dropWhile_cons_of_neg]
        rw [ht c List.mem_cons_self]
        exact Bool.false_ne_true
  rw [trimBy, trimEndBy, hdrop s h, hdrop s.reverse fun c hc => h c (List.mem_reverse.mp hc),
    List.reverse_reverse]

/-- Trimming leaves nothing exactly when all of the text is blank. -/
theorem trim_eq_nil_iff (s : List Char) : trim s = [] ↔ isAllBlank s = true := by
  rw [trim, trimBy, trimEndBy_eq_nil_iff, isAllBlank, List.all_eq_true]
  constructor
  · intro h
    induction s with
    | nil => exact fun c hc => absurd hc List.not_mem_nil
    | cons c rest ih =>
        -- A character that is not blank would survive at the head of what is left.
        have hc : isBlank c = true := by
          by_cases hb : isBlank c = true
          · exact hb
          · rw [List.dropWhile_cons, if_neg hb] at h
            exact h c List.mem_cons_self
        rw [List.dropWhile_cons, if_pos hc] at h
        intro d hd
        rcases List.mem_cons.mp hd with rfl | hd
        · exact hc
        · exact ih h d hd
  · intro h c hc
    exact h c ((List.dropWhile_sublist isBlank).subset hc)

theorem joinWith_cons_cons (sep piece next : List Char) (others : List (List Char)) :
    joinWith sep (piece :: next :: others) = piece ++ sep ++ joinWith sep (next :: others) := rfl

/-- A text has at least one piece. -/
theorem splitOn_ne_nil (sep : Char) (s : List Char) : splitOn sep s ≠ [] := by
  cases s with
  | nil => simp [splitOn]
  | cons c rest =>
      rw [splitOn]
      split
      · simp
      · split <;> simp

/-- Joining the pieces of a text with the character it was cut at gives the
    text back. -/
theorem joinWith_splitOn (sep : Char) (s : List Char) : joinWith [sep] (splitOn sep s) = s := by
  induction s with
  | nil => rfl
  | cons c rest ih =>
      rw [splitOn]
      by_cases hc : c = sep
      · rw [if_pos hc]
        -- There is always a first piece. A separator begins a new one before it.
        cases hp : splitOn sep rest with
        | nil => exact absurd hp (splitOn_ne_nil sep rest)
        | cons piece pieces =>
            rw [hp] at ih
            rw [joinWith, ih, hc]
            · simp
            · simp
      · rw [if_neg hc]
        cases hp : splitOn sep rest with
        | nil => exact absurd hp (splitOn_ne_nil sep rest)
        | cons piece pieces =>
            rw [hp] at ih
            cases pieces with
            | nil =>
                simp only [joinWith] at ih ⊢
                rw [ih]
            | cons next others =>
                simp only [joinWith, List.append_assoc, List.cons_append] at ih ⊢
                rw [ih]

theorem splitOn_of_not_mem (sep : Char) (piece : List Char) (h : sep ∉ piece) :
    splitOn sep piece = [piece] := by
  induction piece with
  | nil => rfl
  | cons c rest ih =>
      rw [List.mem_cons, not_or] at h
      rw [splitOn, if_neg (Ne.symm h.1), ih h.2]

theorem splitOn_append_cons (sep : Char) (piece rest : List Char) (h : sep ∉ piece) :
    splitOn sep (piece ++ sep :: rest) = piece :: splitOn sep rest := by
  induction piece with
  | nil => rw [List.nil_append, splitOn, if_pos rfl]
  | cons c others ih =>
      rw [List.mem_cons, not_or] at h
      rw [List.cons_append, splitOn, if_neg (Ne.symm h.1), ih h.2]

/-- Cutting a joined text gives the pieces back, when there are any and none holds the
    character that joins them. -/
theorem splitOn_joinWith (sep : Char) (pieces : List (List Char)) (hne : pieces ≠ [])
    (h : ∀ piece ∈ pieces, sep ∉ piece) : splitOn sep (joinWith [sep] pieces) = pieces := by
  induction pieces with
  | nil => exact absurd rfl hne
  | cons piece pieces ih =>
      have hpiece := h piece List.mem_cons_self
      cases pieces with
      | nil => exact splitOn_of_not_mem sep piece hpiece
      | cons next others =>
          have hrest := ih (by simp) fun p hp => h p (List.mem_cons_of_mem piece hp)
          rw [joinWith_cons_cons, List.append_assoc, List.singleton_append,
            splitOn_append_cons sep piece _ hpiece, hrest]

/-- A text is cut in two parts, if a character that it is cut at stands between them. -/
theorem splitOn_append (sep : Char) (s t : List Char) :
    splitOn sep (s ++ sep :: t) = splitOn sep s ++ splitOn sep t := by
  induction s with
  | nil => simp [splitOn]
  | cons c rest ih =>
      rw [List.cons_append, splitOn, splitOn, ih]
      by_cases hc : c = sep
      · rw [if_pos hc, if_pos hc]
        rfl
      · rw [if_neg hc, if_neg hc]
        cases hpieces : splitOn sep rest with
        | nil => exact absurd hpieces (splitOn_ne_nil sep rest)
        | cons piece pieces => rfl

theorem joinWith_append_head (sep front piece : List Char) (pieces : List (List Char)) :
    joinWith sep ((front ++ piece) :: pieces) = front ++ joinWith sep (piece :: pieces) := by
  cases pieces with
  | nil => rfl
  | cons next others => simp only [joinWith_cons_cons, List.append_assoc]

/-- Joined texts in the middle of others: each of those in front has the separator behind it, and
    each of the others before it. -/
theorem joinWith_around (sep : List Char) {rows : List (List Char)} (hrows : rows ≠ [])
    (before after : List (List Char)) :
    joinWith sep (before ++ rows ++ after) =
      before.flatMap (· ++ sep) ++ joinWith sep rows ++ after.flatMap (sep ++ ·) := by
  -- First the rows behind are joined on, then those in front.
  have hback : ∀ piece, joinWith sep (piece :: after) = piece ++ after.flatMap (sep ++ ·) := by
    induction after with
    | nil => exact fun piece => (List.append_nil piece).symm
    | cons next after ih =>
        intro piece
        rw [joinWith_cons_cons, ih, List.flatMap_cons, List.append_assoc, List.append_assoc]
  have hmiddle : joinWith sep (rows ++ after) = joinWith sep rows ++ after.flatMap (sep ++ ·) := by
    induction rows with
    | nil => exact absurd rfl hrows
    | cons row rows ih =>
        cases rows with
        | nil => exact hback row
        | cons next rows =>
            rw [List.cons_append, List.cons_append, joinWith_cons_cons, joinWith_cons_cons,
              ← List.cons_append, ih (List.cons_ne_nil _ _), List.append_assoc, List.append_assoc,
              List.append_assoc]
  induction before with
  | nil => exact hmiddle
  | cons piece before ih =>
      cases hrest : before ++ rows ++ after with
      | nil => exact absurd hrest (by simp [hrows])
      | cons next others =>
          rw [List.cons_append, List.cons_append, hrest, joinWith_cons_cons, ← hrest, ih,
            List.flatMap_cons, List.append_assoc, List.append_assoc, List.append_assoc,
            List.append_assoc, List.append_assoc]

/-- What stands in a joined text comes from the separator or from a piece. -/
theorem mem_joinWith (sep : List Char) (pieces : List (List Char)) (c : Char)
    (h : c ∈ joinWith sep pieces) : c ∈ sep ∨ ∃ piece ∈ pieces, c ∈ piece := by
  induction pieces with
  | nil => exact absurd h List.not_mem_nil
  | cons piece pieces ih =>
      cases pieces with
      | nil => exact Or.inr ⟨piece, List.mem_cons_self, h⟩
      | cons next others =>
          rw [joinWith_cons_cons, List.mem_append, List.mem_append] at h
          rcases h with (hpiece | hsep) | hrest
          · exact Or.inr ⟨piece, List.mem_cons_self, hpiece⟩
          · exact Or.inl hsep
          · rcases ih hrest with hsep | ⟨other, hother, hc⟩
            · exact Or.inl hsep
            · exact Or.inr ⟨other, List.mem_cons_of_mem piece hother, hc⟩

end Text

end PageDistill
