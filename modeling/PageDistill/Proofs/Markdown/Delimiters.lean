import Mathlib.Algebra.Ring.Nat
import PageDistill.Proofs.Markdown.QuotedValues
import PageDistill.Proofs.Markdown.TableLines

/-!
# Delimiters in a Line

The pipes that a reader of Markdown takes for the ends of cells.

A pipe is literal when the backslashes right before it are odd in number, for then the last of
them escapes it. All other pipes delimit. What writes the lines decides by one character alone: it
puts a backslash before a pipe that has none, and leaves a pipe alone that has one or more. The
two agree on pipes without a backslash and on pipes after an odd number of them. A pipe after two
backslashes, or four, is left alone and delimits all the same; such a pipe is called stray.

So three classes of pipes have to be counted, which differ only in the numbers of backslashes they
allow. `pipesAfter` counts with such a class given, and carries the number of backslashes right
before the text, so that a text can be counted piece by piece. Every piece of a line ends in a
space, where the count of backslashes starts again, and that keeps the pieces of a line apart.

Escaped text has no stray pipe. The code of a backslash has two, so that the number of backslashes
before a code is even, and the code of a pipe adds one to them.

## Main definitions

* `pipesAfter`: The pipes after some number of backslashes.
* `delimiters`, `strayPipes`: The pipes that delimit, and those of them that a backslash stands
  before.
* `lineCells`: The pieces of a line between its delimiters.
* `Cell.strayPipes`: The stray pipes in what is written for a cell.

## Theorems

* `delimiters_pipe`: A pipe delimits unless what is before it escapes it.
* `delimiters_cellText`: The stray pipes of a text are all that delimits in a cell.
* `delimiters_tableLine`: The delimiters of a line, counted by cells.
* `lineCells_tableLine`: A line of pieces that nothing delimits in is cut into these pieces.
* `splitOn_block_table`: The lines of a table.
* `pipesAfter_escape`: Escaped text has no pipe after an even number of backslashes.
* `cellText_escape`: Escaped text stands in a cell as it is, on one line.
-/

namespace PageDistill

namespace Markdown

/-- The number of backslashes at the end of a text that a run of backslashes stands before. -/
def runAfter (run : Nat) (s : List Char) : Nat :=
  s.foldl (fun run c => if c = '\\' then run + 1 else 0) run

/-- The pipes for which the number of backslashes right before them is of some class. A run of
    backslashes stands right before the text. -/
def pipesAfter (allowed : Nat → Bool) (run : Nat) : List Char → Nat
  | [] => 0
  | c :: rest =>
    (if c = '|' ∧ allowed run then 1 else 0) +
      pipesAfter allowed (if c = '\\' then run + 1 else 0) rest

/-- The numbers of backslashes that do not escape what follows them. -/
def pairsUp (run : Nat) : Bool := run % 2 == 0

/-- The pipes that Markdown reads as the ends of cells. -/
def delimiters (line : List Char) : Nat := pipesAfter pairsUp 0 line

/-- The pipes after backslashes that do not escape them. -/
def strayPipes (s : List Char) : Nat := pipesAfter (fun run => pairsUp run && run != 0) 0 s

/-- The pieces of a text between the pipes that delimit. -/
def cutAtDelimiters (run : Nat) : List Char → List (List Char)
  | [] => [[]]
  | c :: rest =>
    if c = '|' ∧ pairsUp run then [] :: cutAtDelimiters 0 rest
    else (cutAtDelimiters (if c = '\\' then run + 1 else 0) rest).modifyHead (c :: ·)

/-- The cells that Markdown reads in a line: its pieces between delimiters, without what stands
    before the first and after the last delimiter. -/
def lineCells (line : List Char) : List (List Char) := (cutAtDelimiters 0 line).tail.dropLast

theorem runAfter_append (run : Nat) (s t : List Char) :
    runAfter run (s ++ t) = runAfter (runAfter run s) t :=
  List.foldl_append

/-- After a space the count of backslashes starts again. -/
theorem runAfter_space (run : Nat) (s : List Char) : runAfter run (s ++ [' ']) = 0 := by
  rw [runAfter_append]
  rfl

theorem runAfter_zero (s : List Char) : runAfter 0 s = backslashRun s := by
  induction s using List.reverseRecOn with
  | nil => rfl
  | append_singleton s c ih => rw [runAfter_append, ih, backslashRun_concat, runAfter]; rfl

section

variable (allowed : Nat → Bool)

theorem pipesAfter_append (run : Nat) (s t : List Char) :
    pipesAfter allowed run (s ++ t) =
      pipesAfter allowed run s + pipesAfter allowed (runAfter run s) t := by
  induction s generalizing run with
  | nil => rw [List.nil_append, pipesAfter, Nat.zero_add]; rfl
  | cons c rest ih => rw [List.cons_append, pipesAfter, pipesAfter, ih, Nat.add_assoc]; rfl

theorem pipesAfter_of_not_mem (run : Nat) (s : List Char) (h : '|' ∉ s) :
    pipesAfter allowed run s = 0 := by
  induction s generalizing run with
  | nil => rfl
  | cons c rest ih =>
      rw [List.mem_cons, not_or] at h
      rw [pipesAfter, ih _ h.2, if_neg fun hc => h.1 hc.1.symm]

end

/-- A pipe delimits unless what stands before it escapes it. -/
theorem delimiters_pipe (before after : List Char) :
    delimiters (before ++ '|' :: after) =
      delimiters before + (if EscapedAfter before then 0 else 1) + delimiters after := by
  unfold delimiters
  rw [pipesAfter_append, pipesAfter, runAfter_zero, Nat.add_assoc]
  refine congrArg (_ + ·) (congrArg (· + _) ?_)
  by_cases hescaped : EscapedAfter before
  · rw [if_pos hescaped]
    unfold EscapedAfter at hescaped
    exact if_neg (by simp [pairsUp, hescaped])
  · rw [if_neg hescaped]
    unfold EscapedAfter at hescaped
    exact if_pos ⟨rfl, by simpa [pairsUp] using hescaped⟩

/-- A backslash stands right before what follows exactly if the character is one. -/
theorem run_ne_zero (run : Nat) (c : Char) :
    ((if c = '\\' then run + 1 else 0) != 0) = (c == '\\') := by
  by_cases hback : c = '\\' <;> simp [hback]

/-- Of the pipes that delimit, escaping leaves those that a backslash of the text stands before. -/
theorem pipesAfter_escapePipes (run : Nat) (s : List Char) :
    pipesAfter pairsUp run (escapePipes (run != 0) s) =
      pipesAfter (fun run => pairsUp run && run != 0) run s := by
  induction s generalizing run with
  | nil => rfl
  | cons c rest ih =>
      rw [escapePipes]
      by_cases hc : c = '|' ∧ !(run != 0)
      · have hrun : run = 0 := by simpa using hc.2
        have hrest := ih 0
        rw [if_pos hc, pipesAfter, pipesAfter, pipesAfter, hc.1, hrun]
        simpa [pairsUp] using hrest
      · have hrest := ih (if c = '\\' then run + 1 else 0)
        rw [run_ne_zero] at hrest
        rw [if_neg hc, pipesAfter, pipesAfter, hrest]
        refine congrArg (· + _) (if_congr (and_congr_right fun hpipe => ?_) rfl rfl)
        -- A pipe that is left alone has a backslash before it.
        have hne : (run != 0) = true := by simpa [hpipe] using hc
        rw [hne, Bool.and_true]

/-- What delimits in the text of a cell are the stray pipes of its content. -/
theorem delimiters_cellText (content : List Char) :
    delimiters (cellText content) = strayPipes (joinLines false content) :=
  pipesAfter_escapePipes 0 (joinLines false content)

section

variable {pieces : List (List Char)} (hspace : ∀ piece ∈ pieces, ∃ body, piece = body ++ [' '])
  (hne : pieces ≠ [])

include hspace hne

/-- Between pieces, and after the last one, stands one delimiter each. -/
theorem delimiters_joinWith :
    delimiters (Text.joinWith ['|'] pieces ++ ['|']) =
      pieces.length + (pieces.map delimiters).sum := by
  induction pieces with
  | nil => exact absurd rfl hne
  | cons piece pieces ih =>
      -- Each piece ends with a space, so the pipe behind it is not escaped.
      have hpipe : ∀ rest, delimiters (piece ++ '|' :: rest) =
          delimiters piece + 1 + delimiters rest := by
        intro rest
        rcases hspace piece List.mem_cons_self with ⟨body, rfl⟩
        rw [delimiters_pipe, if_neg]
        unfold EscapedAfter
        rw [← runAfter_zero, runAfter_space]
        decide
      cases pieces with
      | nil =>
          rw [Text.joinWith, hpipe]
          simp [delimiters, pipesAfter]
          omega
      | cons next others =>
          have hrest := ih (fun p hp => hspace p (List.mem_cons_of_mem piece hp)) (by simp)
          rw [Text.joinWith_cons_cons, List.append_assoc, List.append_assoc,
            List.singleton_append, hpipe, hrest]
          simp only [List.length_cons, List.map_cons, List.sum_cons]
          omega

end

/-- Up to a pipe that delimits a text is one piece, if nothing delimits in it. -/
theorem cutAtDelimiters_pipe (run : Nat) (piece rest : List Char)
    (hpiece : pipesAfter pairsUp run piece = 0) (hrun : pairsUp (runAfter run piece) = true) :
    cutAtDelimiters run (piece ++ '|' :: rest) = piece :: cutAtDelimiters 0 rest := by
  induction piece generalizing run with
  | nil => rw [List.nil_append, cutAtDelimiters, if_pos ⟨rfl, hrun⟩]
  | cons c others ih =>
      rw [pipesAfter, Nat.add_eq_zero_iff] at hpiece
      rw [List.cons_append, cutAtDelimiters, if_neg fun hc => by simp [hc] at hpiece,
        ih _ hpiece.2 hrun, List.modifyHead_cons]

/-- A line of pieces that nothing delimits in is cut into these pieces. -/
theorem lineCells_joinWith {pieces : List (List Char)}
    (hspace : ∀ piece ∈ pieces, ∃ body, piece = body ++ [' '])
    (hclosed : ∀ piece ∈ pieces, delimiters piece = 0) (hne : pieces ≠ []) :
    lineCells ('|' :: (Text.joinWith ['|'] pieces ++ ['|'])) = pieces := by
  -- What stands in front of the first pipe and behind the last one is no cell.
  suffices h : cutAtDelimiters 0 (Text.joinWith ['|'] pieces ++ ['|']) = pieces ++ [[]] by
    rw [lineCells, cutAtDelimiters, if_pos ⟨rfl, rfl⟩, List.tail_cons, h,
      List.dropLast_concat]
  induction pieces with
  | nil => exact absurd rfl hne
  | cons piece pieces ih =>
      have hpipe : ∀ rest, cutAtDelimiters 0 (piece ++ '|' :: rest) =
          piece :: cutAtDelimiters 0 rest := by
        intro rest
        refine cutAtDelimiters_pipe 0 piece rest (hclosed piece List.mem_cons_self) ?_
        rcases hspace piece List.mem_cons_self with ⟨body, rfl⟩
        rw [runAfter_space]
        rfl
      cases pieces with
      | nil => exact hpipe []
      | cons next others =>
          have hrest := ih (fun p hp => hspace p (List.mem_cons_of_mem piece hp))
            (fun p hp => hclosed p (List.mem_cons_of_mem piece hp)) (by simp)
          rw [Text.joinWith_cons_cons, List.append_assoc, List.append_assoc,
            List.singleton_append, hpipe, hrest]
          rfl

/-- The pieces that fill a line up hold no delimiter. -/
theorem sum_delimiters_replicate (n : Nat) {piece : List Char} (h : delimiters piece = 0) :
    ((List.replicate n piece).map delimiters).sum = 0 := by
  rw [List.map_replicate, List.sum_replicate_nat, h, Nat.mul_zero]

/-- The stray pipes in what is written for a cell at an indent level. -/
def Cell.strayPipes (indent : Int) : Cell → Nat
  | .plain text _ => Markdown.strayPipes (joinLines false text.toList)
  | .rich content _ =>
    Markdown.strayPipes (joinLines false (Text.trim (layOut (indent + 1) [] content)))

section

variable {marks : CellMarks} (h : marks.Proper) (content : List Char)

include h

/-- Only the content of a cell can hold a delimiter. -/
theorem sum_delimiters_cellPieces :
    ((cellPieces marks content).map delimiters).sum = strayPipes (joinLines false content) := by
  have hnotes := h.not_mem_annotations '|' (Or.inl rfl)
  have hfirst : delimiters (' ' :: (cellText content ++ annotations marks ++ [' '])) =
      strayPipes (joinLines false content) := by
    rw [← delimiters_cellText]
    unfold delimiters
    rw [pipesAfter, if_neg (by simp), Nat.zero_add, List.append_assoc, pipesAfter_append,
      pipesAfter_of_not_mem _ _ (annotations marks ++ [' ']), if_neg (by decide), Nat.add_zero]
    simpa using hnotes
  rw [cellPieces, List.map_cons, List.sum_cons, hfirst, sum_delimiters_replicate _ rfl,
    Nat.add_zero]

end

section

variable {row : List Cell} (h : ∀ cell ∈ row, cell.marks.Proper) (indent : Int)

include h

theorem sum_delimiters_rowPieces :
    ((rowPieces indent row).map delimiters).sum = (row.map (Cell.strayPipes indent)).sum := by
  induction row with
  | nil => rfl
  | cons cell cells ih =>
      have hcell := sum_delimiters_cellPieces (h cell List.mem_cons_self)
      have hrest := ih fun c hc => h c (List.mem_cons_of_mem cell hc)
      cases cell with
      | plain text marks =>
          rw [rowPieces, List.map_append, List.sum_append, hrest, List.map_cons, List.sum_cons]
          exact congrArg (· + _) (hcell text.toList)
      | rich content marks =>
          rw [rowPieces, List.map_append, List.sum_append, hrest, List.map_cons, List.sum_cons]
          exact congrArg (· + _) (hcell _)

variable {width : Int}

/-- The pieces of a line all end in a space, and there are as many as columns. -/
theorem filledPieces_end (width : Int) :
    ∀ piece ∈ rowPieces indent row ++ List.replicate (width - rowWidth row).toNat [' ', ' '],
      ∃ body, piece = body ++ [' '] := by
  intro piece hpiece
  rcases List.mem_append.mp hpiece with hrow | hfill
  · rcases isPiece_of_mem_rowPieces h indent piece hrow with ⟨body, hbody, _⟩
    exact ⟨body, hbody⟩
  · exact ⟨[' '], List.eq_of_mem_replicate hfill⟩

theorem length_filledPieces (hle : rowWidth row ≤ width) :
    ((rowPieces indent row ++
      List.replicate (width - rowWidth row).toNat [' ', ' ']).length : Int) = width := by
  have hlength := length_rowPieces h indent
  rw [List.length_append, List.length_replicate]
  omega

theorem filledPieces_ne_nil (hpos : 0 < width) (hle : rowWidth row ≤ width) :
    rowPieces indent row ++ List.replicate (width - rowWidth row).toNat [' ', ' '] ≠ [] := by
  intro hnil
  have hlength := length_filledPieces h indent hle
  rw [hnil, List.length_nil] at hlength
  omega

/-- A line has one delimiter more than the table has columns, and the stray pipes of its cells
    besides. -/
theorem delimiters_tableLine (hpos : 0 < width) (hle : rowWidth row ≤ width) :
    (delimiters (tableLine width row (rowPieces indent row)) : Int) =
      width + 1 + (row.map (Cell.strayPipes indent)).sum := by
  have hlength := length_filledPieces h indent hle
  have hjoin := delimiters_joinWith (filledPieces_end h indent width)
    (filledPieces_ne_nil h indent hpos hle)
  rw [List.map_append, List.sum_append, sum_delimiters_rowPieces h,
    sum_delimiters_replicate _ rfl] at hjoin
  have hfirst : ∀ rest, delimiters ('|' :: rest) = 1 + delimiters rest := fun _ => rfl
  rw [tableLine, hfirst, hjoin]
  omega

/-- A line whose cells have no stray pipes is cut into the pieces it is made of. -/
theorem lineCells_tableLine (hpos : 0 < width) (hle : rowWidth row ≤ width)
    (hstray : ∀ cell ∈ row, cell.strayPipes indent = 0) :
    lineCells (tableLine width row (rowPieces indent row)) =
      rowPieces indent row ++ List.replicate (width - rowWidth row).toNat [' ', ' '] := by
  refine lineCells_joinWith (filledPieces_end h indent width) (fun piece hpiece => ?_)
    (filledPieces_ne_nil h indent hpos hle)
  rcases List.mem_append.mp hpiece with hrow | hfill
  · have hsum := sum_delimiters_rowPieces h indent
    have hnone : (row.map (Cell.strayPipes indent)).sum = 0 :=
      List.sum_eq_zero_iff_forall_eq_nat.mpr (by simpa using hstray)
    rw [hnone, List.sum_eq_zero_iff_forall_eq_nat] at hsum
    exact hsum _ (List.mem_map_of_mem hrow)
  · rw [List.eq_of_mem_replicate hfill]
    rfl

end

/-- A table with columns is written as one line for each of its rows. -/
theorem splitOn_block_table {rows : List (List Cell)}
    (h : ∀ row ∈ rows, ∀ cell ∈ row, cell.marks.Proper) (indent : Int)
    (colIds : Option (List String)) (hpos : 0 < tableWidth rows) :
    Text.splitOn '\n' ((Node.table rows colIds).block indent) =
      rows.map fun row => tableLine (tableWidth rows) row (rowPieces indent row) := by
  have hne : rows ≠ [] := fun hnil => by
    rw [hnil] at hpos
    exact absurd hpos (by decide)
  rw [Node.block, if_neg (by omega), rowLines_eq_map]
  refine Text.splitOn_joinWith '\n' _ (by simpa using hne) fun line hline => ?_
  rcases List.mem_map.mp hline with ⟨row, hrow, rfl⟩
  exact lineEnd_not_mem_tableLine (h row hrow) indent

/-- Before a code the number of backslashes is even, and so it is after it. -/
theorem runAfter_escapeCode (c : Char) {run : Nat} (hrun : run % 2 = 0) :
    runAfter run (escapeCode c) % 2 = 0 := by
  rcases escapeCode_cases c with
    ⟨_, hcode⟩ | ⟨_, hcode⟩ | ⟨_, hcode⟩ | ⟨_, hcode⟩ | ⟨hmark, _, _, _, hcode⟩
  all_goals rw [hcode]
  · rfl
  · rfl
  · rfl
  · by_cases hback : c = '\\'
    · simp only [runAfter, List.foldl_cons, List.foldl_nil, hback, if_true]
      omega
    · simp [runAfter, hback]
  · have hback : c ≠ '\\' := fun hback => by
      rw [hback] at hmark
      exact absurd hmark (by decide)
    simp [runAfter, hback]

theorem runAfter_escape (s : List Char) {run : Nat} (hrun : run % 2 = 0) :
    runAfter run (escape s) % 2 = 0 := by
  induction s generalizing run with
  | nil => exact hrun
  | cons c rest ih =>
      rw [escape, List.flatMap_cons, runAfter_append]
      exact ih (runAfter_escapeCode c hrun)

section

variable {allowed : Nat → Bool} (hallowed : ∀ run, allowed run = true → run % 2 = 0)

include hallowed

/-- In the code of a pipe the number of backslashes is odd, and no other code holds one. -/
theorem pipesAfter_escapeCode (c : Char) {run : Nat} (hrun : run % 2 = 0) :
    pipesAfter allowed run (escapeCode c) = 0 := by
  rcases escapeCode_cases c with
    ⟨_, hcode⟩ | ⟨_, hcode⟩ | ⟨_, hcode⟩ | ⟨_, hcode⟩ | ⟨hmark, _, _, _, hcode⟩
  all_goals rw [hcode]
  · exact pipesAfter_of_not_mem _ _ _ (by decide)
  · exact pipesAfter_of_not_mem _ _ _ (by decide)
  · exact pipesAfter_of_not_mem _ _ _ (by decide)
  · have hodd : allowed (run + 1) ≠ true := fun hrun' => by
      have heven := hallowed _ hrun'
      omega
    simp [pipesAfter, hodd]
  · refine pipesAfter_of_not_mem _ _ _ fun hpipe => ?_
    rw [← List.mem_singleton.mp hpipe] at hmark
    exact absurd hmark (by decide)

/-- Escaped text has no pipe after an even number of backslashes, be it none. -/
theorem pipesAfter_escape (s : List Char) {run : Nat} (hrun : run % 2 = 0) :
    pipesAfter allowed run (escape s) = 0 := by
  induction s generalizing run with
  | nil => rfl
  | cons c rest ih =>
      rw [escape, List.flatMap_cons, pipesAfter_append, pipesAfter_escapeCode hallowed c hrun,
        Nat.zero_add]
      exact ih (runAfter_escapeCode c hrun)

end

/-- A text that is not empty and has no line end ends every run of line ends. -/
theorem joinLines_append (inRun : Bool) (s t : List Char) (hne : s ≠ []) (h : '\n' ∉ s) :
    joinLines inRun (s ++ t) = s ++ joinLines false t := by
  induction s generalizing inRun with
  | nil => exact absurd rfl hne
  | cons c rest ih =>
      rw [List.mem_cons, not_or] at h
      rw [List.cons_append, joinLines, if_neg fun hc => h.1 hc.symm, List.cons_append]
      refine congrArg (c :: ·) ?_
      cases rest with
      | nil => rfl
      | cons d others => exact ih false (by simp) h.2

theorem lineEnd_not_mem_escapeCode {c : Char} (hc : c ≠ '\n') : '\n' ∉ escapeCode c := by
  rcases escapeCode_cases c with
    ⟨_, hcode⟩ | ⟨_, hcode⟩ | ⟨_, hcode⟩ | ⟨_, hcode⟩ | ⟨_, _, _, _, hcode⟩
  all_goals rw [hcode]
  · decide
  · decide
  · decide
  · simp [Ne.symm hc]
  · simp [Ne.symm hc]

/-- A line end is its own code, so it does not matter whether text is escaped first or brought onto
    one line. -/
theorem joinLines_escape (inRun : Bool) (s : List Char) :
    joinLines inRun (escape s) = escape (joinLines inRun s) := by
  induction s generalizing inRun with
  | nil => rfl
  | cons c rest ih =>
      rw [escape, List.flatMap_cons]
      by_cases hc : c = '\n'
      · have hrest := ih true
        rw [hc]
        change (if inRun then joinLines true (escape rest)
            else ' ' :: joinLines true (escape rest)) =
          escape (if inRun then joinLines true rest else ' ' :: joinLines true rest)
        rw [hrest]
        cases inRun <;> rfl
      · rw [joinLines_append inRun _ _ (escapeCode_ne_nil c) (lineEnd_not_mem_escapeCode hc),
          joinLines, if_neg hc]
        exact congrArg (escapeCode c ++ ·) (ih false)

/-- Where no pipe is without a backslash, none is given one. -/
theorem escapePipes_eq_self (run : Nat) (s : List Char) (h : pipesAfter (· == 0) run s = 0) :
    escapePipes (run != 0) s = s := by
  induction s generalizing run with
  | nil => rfl
  | cons c rest ih =>
      rw [pipesAfter, Nat.add_eq_zero_iff] at h
      have hrest := ih _ h.2
      rw [run_ne_zero] at hrest
      rw [escapePipes, if_neg (fun hc => by simp at hc; simp [hc] at h), hrest]

/-- Escaped text stands in a cell as it is, on one line. -/
theorem cellText_escape (s : List Char) : cellText (escape s) = escape (joinLines false s) := by
  rw [cellText, joinLines_escape]
  exact escapePipes_eq_self 0 _ (pipesAfter_escape (by simp) _ rfl)

theorem strayPipes_escape (s : List Char) : strayPipes (joinLines false (escape s)) = 0 := by
  rw [joinLines_escape]
  exact pipesAfter_escape (fun run h => by simp [pairsUp] at h; exact h.1) _ rfl

end Markdown

end PageDistill
