import PageDistill.Proofs.Markdown.Layout

/-!
# What Stays in One Piece

Texts that are found in the Markdown of a tree wherever in the tree they were written.

What is written for a node is handled once more by every rule around it. It is trimmed, cut into
lines that get marks before them, brought onto one line, and its pipes are escaped. All of that
happens at blank space, at line ends and at pipes. So a text on one line, without a pipe and filled
at both ends, comes out of each rule as it went in, whatever stands around it.

## Main definitions

* `Unbroken`: A text that no rule of rendering breaks.

## Theorems

* `Unbroken.trim`, `Unbroken.exists_line`, `Unbroken.cellText`: Trimming, cutting into lines and
  bringing onto one line leave it.
* `Unbroken.layOut`, `Unbroken.layOut_of_block`: What is written next leaves it.
* `Unbroken.heading`, `Unbroken.quote`, `Unbroken.semantic`, `Unbroken.item`, `Unbroken.cell`: So do
  the rules for the nodes that hold others.
-/

namespace PageDistill

namespace Text

/-- A member of a joined list is in the joined text. -/
theorem infix_joinWith (sep : List Char) {pieces : List (List Char)} {piece : List Char}
    (h : piece ∈ pieces) : piece <:+: joinWith sep pieces := by
  induction pieces with
  | nil => exact absurd h List.not_mem_nil
  | cons first others ih =>
      cases others with
      | nil => rw [List.mem_singleton.mp h]; exact List.infix_refl _
      | cons next rest =>
          rw [joinWith_cons_cons]
          rcases List.mem_cons.mp h with rfl | hrest
          · exact (List.prefix_append _ _).isInfix.trans (List.prefix_append _ _).isInfix
          · exact (ih hrest).trans (List.suffix_append _ _).isInfix

/-- What stands before the first separator of a text belongs to its first piece. -/
theorem splitOn_append_of_not_mem {sep : Char} {front s piece : List Char}
    {pieces : List (List Char)} (hfront : sep ∉ front) (hs : splitOn sep s = piece :: pieces) :
    splitOn sep (front ++ s) = (front ++ piece) :: pieces := by
  induction front with
  | nil => exact hs
  | cons c front ih =>
      rw [List.mem_cons, not_or] at hfront
      rw [List.cons_append, splitOn, if_neg (Ne.symm hfront.1), ih hfront.2, List.cons_append]

end Text

namespace Markdown

/-- A text that no rule of rendering breaks: it stands on one line, holds no pipe, and neither
    begins nor ends with blank space. -/
structure Unbroken (s : List Char) : Prop where
  filled : s ≠ []
  trimmed : Text.Trimmed s
  lineEnd : '\n' ∉ s
  pipe : '|' ∉ s

namespace Unbroken

variable {s : List Char} (h : Unbroken s)

include h

theorem trimEnd {t : List Char} (hin : s <:+: t) : s <:+: Text.trimEnd t := by
  rcases hin with ⟨before, after, rfl⟩
  have hends : Text.EndsFilled (before ++ s) :=
    (Text.endsFilled_of_trimmed h.filled h.trimmed).append_left before
  rw [hends.trimEnd_append]
  exact List.infix_append _ _ _

/-- The front is trimmed up to the text at most. -/
theorem dropWhile {t : List Char} (hin : s <:+: t) : s <:+: t.dropWhile Text.isBlank := by
  rcases hin with ⟨before, after, rfl⟩
  induction before with
  | nil =>
      rw [List.nil_append]
      cases s with
      | nil => exact absurd rfl h.filled
      | cons c others =>
          -- The text does not begin blank, so nothing of it is dropped.
          have hc : ¬ Text.isBlank c = true := Bool.eq_false_iff.mp (h.trimmed.1 c rfl)
          rw [List.cons_append, List.dropWhile_cons_of_neg hc]
          exact (List.prefix_append (c :: others) after).isInfix
  | cons c before ih =>
      by_cases hc : Text.isBlank c = true
      · rw [List.cons_append, List.cons_append, List.dropWhile_cons_of_pos hc]
        exact ih
      · rw [List.cons_append, List.cons_append, List.dropWhile_cons_of_neg hc]
        exact ⟨c :: before, after, rfl⟩

theorem trim {t : List Char} (hin : s <:+: t) : s <:+: Text.trim t := h.trimEnd (h.dropWhile hin)

/-- A text on one line is in one of the lines. -/
theorem exists_line {t : List Char} (hin : s <:+: t) :
    ∃ line ∈ Text.splitOn '\n' t, s <:+: line := by
  induction t with
  | nil => exact absurd (List.infix_nil.mp hin) h.filled
  | cons c rest ih =>
      rcases List.infix_cons_iff.mp hin with ⟨after, hfront⟩ | hrest
      · -- The text is at the front, so it is in the first line.
        cases hlines : Text.splitOn '\n' after with
        | nil => exact absurd hlines (Text.splitOn_ne_nil _ _)
        | cons line lines =>
            rw [← hfront, Text.splitOn_append_of_not_mem h.lineEnd hlines]
            exact ⟨s ++ line, List.mem_cons_self, (List.prefix_append s line).isInfix⟩
      · rcases ih hrest with ⟨line, hline, hin⟩
        rw [Text.splitOn]
        split
        · exact ⟨line, List.mem_cons_of_mem _ hline, hin⟩
        · cases hlines : Text.splitOn '\n' rest with
          | nil => exact absurd hlines (Text.splitOn_ne_nil _ _)
          | cons first lines =>
              rw [hlines] at hline
              rcases List.mem_cons.mp hline with rfl | hline
              · exact ⟨c :: line, List.mem_cons_self, List.infix_cons hin⟩
              · exact ⟨line, List.mem_cons_of_mem _ hline, hin⟩

theorem joinLines {t : List Char} (inRun : Bool) (hin : s <:+: t) :
    s <:+: Markdown.joinLines inRun t := by
  -- Where there is no line end, there is nothing to join.
  have hkept : ∀ (front after : List Char) (inRun : Bool), '\n' ∉ front →
      ∃ more, Markdown.joinLines inRun (front ++ after) = front ++ more := by
    intro front after
    induction front with
    | nil => exact fun inRun _ => ⟨_, rfl⟩
    | cons c front ih =>
        intro inRun hfront
        rw [List.mem_cons, not_or] at hfront
        rcases ih false hfront.2 with ⟨more, hmore⟩
        exact ⟨more, by
          rw [List.cons_append, Markdown.joinLines, if_neg (Ne.symm hfront.1), hmore,
            List.cons_append]⟩
  rcases hin with ⟨before, after, rfl⟩
  induction before generalizing inRun with
  | nil =>
      rcases hkept s after inRun h.lineEnd with ⟨more, hmore⟩
      rw [List.nil_append, hmore]
      exact (List.prefix_append s more).isInfix
  | cons c before ih =>
      rw [List.cons_append, List.cons_append, Markdown.joinLines]
      split
      · split
        · exact ih true
        · exact List.infix_cons (ih true)
      · exact List.infix_cons (ih false)

/-- It has no pipe to be escaped. -/
theorem escapePipes {t : List Char} (afterBackslash : Bool) (hin : s <:+: t) :
    s <:+: Markdown.escapePipes afterBackslash t := by
  -- Where there is no pipe, there is nothing to escape.
  have hkept : ∀ (front after : List Char) (afterBackslash : Bool), '|' ∉ front →
      ∃ more, Markdown.escapePipes afterBackslash (front ++ after) = front ++ more := by
    intro front after
    induction front with
    | nil => exact fun afterBackslash _ => ⟨_, rfl⟩
    | cons c front ih =>
        intro afterBackslash hfront
        rw [List.mem_cons, not_or] at hfront
        rcases ih (c == '\\') hfront.2 with ⟨more, hmore⟩
        exact ⟨more, by
          rw [List.cons_append, Markdown.escapePipes, if_neg fun hc => hfront.1 hc.1.symm, hmore,
            List.cons_append]⟩
  rcases hin with ⟨before, after, rfl⟩
  induction before generalizing afterBackslash with
  | nil =>
      rcases hkept s after afterBackslash h.pipe with ⟨more, hmore⟩
      rw [List.nil_append, hmore]
      exact (List.prefix_append s more).isInfix
  | cons c before ih =>
      rw [List.cons_append, List.cons_append, Markdown.escapePipes]
      split
      · exact List.infix_cons (List.infix_cons (ih false))
      · exact List.infix_cons (ih _)

theorem cellText {t : List Char} (hin : s <:+: t) : s <:+: Markdown.cellText t :=
  h.escapePipes false (h.joinLines false hin)

/-- What is written after the text leaves it. -/
theorem layOut {out : List Char} (hin : s <:+: out) (indent : Int) (nodes : List Node) :
    s <:+: Markdown.layOut indent out nodes := by
  rcases hin with ⟨before, after, rfl⟩
  have hends : ∀ c ∈ (before ++ s).getLast?, (c == '\n') = false := by
    intro c hc
    rw [List.getLast?_append_of_ne_nil _ h.filled] at hc
    exact beq_eq_false_iff_ne.mpr fun heq => h.lineEnd (heq ▸ List.mem_of_getLast? hc)
  have hgrown : Grown (before ++ s) (Markdown.layOut indent (before ++ s ++ after) nodes) :=
    (Grown.refl.append after).trans (grown_layOut indent _ nodes)
  rw [← List.append_nil (before ++ s)] at hgrown
  have hthere := Grown.still_there hends List.nil_prefix hgrown
  rw [List.append_nil] at hthere
  exact (List.suffix_append before s).isInfix.trans hthere.isInfix

/-- What is written for a node stands in what is written for a list with the node in it. -/
theorem layOut_of_block {indent : Int} {node : Node} (hin : s <:+: node.block indent)
    (out : List Char) (rest : List Node) : s <:+: Markdown.layOut indent out (node :: rest) := by
  rw [Markdown.layOut]
  refine h.layOut ?_ indent rest
  rcases place_cases node rest out indent with ⟨hnil, _⟩ | ⟨_, _, heq⟩ | ⟨_, _, heq⟩
  · rw [hnil] at hin
    exact absurd (List.infix_nil.mp hin) h.filled
  · rw [heq]
    exact hin.trans (List.suffix_append _ _).isInfix
  · rw [heq]
    exact hin.trans (List.infix_append _ _ _)

theorem heading {inner : List Char} (hin : s <:+: inner) (level : Int) :
    s <:+: headingLine level (Text.trim inner) :=
  (List.infix_cons (h.trim hin)).trans (List.suffix_append _ _).isInfix

theorem quote {inner : List Char} (hin : s <:+: inner) : s <:+: quoteText (Text.trim inner) := by
  have htrim := h.trim hin
  unfold quoteText
  split
  · rename_i hempty
    rw [List.isEmpty_iff.mp hempty] at htrim
    exact absurd (List.infix_nil.mp htrim) h.filled
  · rcases h.exists_line htrim with ⟨line, hline, hin⟩
    exact (h.trimEnd (List.infix_cons (List.infix_cons hin))).trans
      (Text.infix_joinWith _ (List.mem_map_of_mem hline))

theorem semantic {inner : List Char} (hin : s <:+: inner) (element : String) :
    s <:+: semanticText element (Text.trim inner) := by
  have htrim := h.trim hin
  unfold semanticText
  split
  · rename_i hempty
    rw [List.isEmpty_iff.mp hempty] at htrim
    exact absurd (List.infix_nil.mp htrim) h.filled
  · split
    · exact htrim
    · split
      · exact htrim.trans (List.infix_append _ _ _)
      · simp only [List.append_assoc]
        refine htrim.trans ?_
        iterate 3 refine List.IsInfix.trans ?_ (List.suffix_append _ _).isInfix
        exact (List.prefix_append _ _).isInfix

/-- It stays in one piece in an item, however deep. -/
theorem item {inner : List Char} (hin : s <:+: inner) (indent : Int) (ordered : Bool)
    (number : Nat) : s <:+: itemLine indent ordered number (Text.trim inner) := by
  have htrim := h.trim hin
  unfold itemLine
  simp only
  generalize List.replicate (2 * indent.toNat) ' ' ++ _ = start
  split
  · rename_i hempty
    rw [List.isEmpty_iff.mp hempty] at htrim
    exact absurd (List.infix_nil.mp htrim) h.filled
  · exact (List.infix_cons htrim).trans (List.suffix_append _ _).isInfix

/-- A text in a cell is in the first piece of the cell. -/
theorem cell {inner : List Char} (hin : s <:+: inner) (marks : CellMarks) :
    ∃ piece ∈ cellPieces marks (Text.trim inner), s <:+: piece := by
  refine ⟨_, List.mem_cons_self, List.infix_cons ?_⟩
  rw [List.append_assoc]
  exact (h.cellText (h.trim hin)).trans (List.prefix_append _ _).isInfix

end Unbroken

end Markdown

end PageDistill
