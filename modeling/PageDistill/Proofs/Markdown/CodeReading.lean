import Mathlib.Data.List.SplitBy
import PageDistill.Proofs.Markdown.ListLines

/-!
# Reading Code Back

What the marks around code delimit.

Code on lines of its own ends with the first line that begins with as many grave accents as the line
it began with. Code inside a line ends with the first run of grave accents that is as long as the
run it began with. The two readers here find these ends, and neither knows how code is written.

The marks that are written are always the same, and the code between them is whatever the page
holds. So the question is when the end that a reader finds is the end that was written. For a block
this depends on where its lines begin, and for code inside a line on its runs of grave accents and
on its two ends, since an accent there makes a mark longer. Nothing else in a document matters: what
is written after code inside a line never begins with an accent, and what is written before it never
ends in one.

## Main definitions

* `cutAt`: A list cut at the first member that a test accepts.
* `ticksAtFront`, `readFenced`: The fence of a line, and the reader of blocks.
* `tickRuns`, `readSpan`: The runs of grave accents in a text, and the reader of code inside a line.
* `Delimits`: The runs that delimit code inside a line.

## Theorems

* `cutAt_eq_some_iff`: Where a list is cut.
* `readFenced_codeBlock_iff`: When a block is read back.
* `readSpan_eq_some_iff`: What the reader of code inside a line accepts.
* `readSpan_inlineCode_iff`: When code inside a line is read back.
* `layOut_inlineCode`: Code inside a line stands apart from other grave accents.
-/

namespace PageDistill

/-- A list cut at the first member that a test accepts, without that member. -/
def cutAt {α : Type} (accepts : α → Bool) : List α → Option (List α × List α)
  | [] => none
  | x :: rest =>
    if accepts x then some ([], rest)
    else (cutAt accepts rest).map fun (before, after) => (x :: before, after)

/-- A list is cut at a member that the test accepts, and it accepts none before. -/
theorem cutAt_eq_some_iff {α : Type} {accepts : α → Bool} {members before after : List α} :
    cutAt accepts members = some (before, after) ↔
      ∃ x, members = before ++ x :: after ∧ accepts x = true ∧
        ∀ y ∈ before, accepts y = false := by
  induction members generalizing before with
  | nil => simp [cutAt]
  | cons x rest ih =>
      rw [cutAt]
      by_cases hx : accepts x = true
      · rw [if_pos hx]
        constructor
        · intro h
          obtain ⟨rfl, rfl⟩ := Prod.mk.inj (Option.some.inj h)
          exact ⟨x, rfl, hx, nofun⟩
        · rintro ⟨y, hmembers, hy, hnone⟩
          cases before with
          | nil => rw [(List.cons.inj hmembers).2]
          | cons z others =>
              have hz := hnone z List.mem_cons_self
              rw [← (List.cons.inj hmembers).1, hx] at hz
              exact absurd hz Bool.noConfusion
      · rw [if_neg hx, Option.map_eq_some_iff]
        constructor
        · rintro ⟨⟨inner, last⟩, hcut, heq⟩
          obtain ⟨rfl, rfl⟩ := Prod.mk.inj heq
          -- The first one is not accepted, so it is part of what comes before the cut.
          rcases ih.mp hcut with ⟨y, hrest, hy, hnone⟩
          exact ⟨y, by rw [hrest]; rfl, hy,
            List.forall_mem_cons.mpr ⟨Bool.eq_false_iff.mpr hx, hnone⟩⟩
        · rintro ⟨y, hmembers, hy, hnone⟩
          cases before with
          | nil => exact absurd ((List.cons.inj hmembers).1 ▸ hy) hx
          | cons z others =>
              obtain ⟨rfl, hrest⟩ := List.cons.inj hmembers
              exact ⟨(others, after),
                ih.mpr ⟨y, hrest, hy, fun w hw => hnone w (List.mem_cons_of_mem x hw)⟩, rfl⟩

namespace Text

/-- No piece of a text that is cut at a character holds the character. -/
theorem not_mem_of_mem_splitOn {sep : Char} {s piece : List Char} (h : piece ∈ splitOn sep s) :
    sep ∉ piece := by
  induction s generalizing piece with
  | nil =>
      rw [List.mem_singleton.mp h]
      exact List.not_mem_nil
  | cons c rest ih =>
      rw [splitOn] at h
      split at h
      · rcases List.mem_cons.mp h with rfl | h
        · exact List.not_mem_nil
        · exact ih h
      · rename_i hc
        -- A character that is no separator goes to the first piece of the rest.
        cases hpieces : splitOn sep rest with
        | nil => exact absurd hpieces (splitOn_ne_nil sep rest)
        | cons first others =>
            rw [hpieces] at h ih
            rcases List.mem_cons.mp h with rfl | h
            · rw [List.mem_cons, not_or]
              exact ⟨Ne.symm hc, ih List.mem_cons_self⟩
            · exact ih (List.mem_cons_of_mem first h)

end Text

namespace Markdown

/-- Whether a character is the one that delimits code. -/
def isTick (c : Char) : Bool := c == graveAccent

section Blocks

/-- The number of grave accents that a line begins with. -/
def ticksAtFront (line : List Char) : Nat := (line.takeWhile isTick).length

/-- The code of a block that begins a text, and the text after the block. The block ends with the
    first line that begins with as many grave accents as its first line, at least. -/
def readFenced (s : List Char) : Option (List Char × List Char) :=
  match Text.splitOn '\n' s with
  | [] => none
  | opening :: lines =>
    (cutAt (fun line => ticksAtFront opening ≤ ticksAtFront line) lines).map
      fun (inside, after) => (Text.joinWith ['\n'] inside, Text.joinWith ['\n'] after)

theorem ticksAtFront_codeFence (s : List Char) :
    ticksAtFront (codeFence ++ s) = 3 + ticksAtFront s := by
  have htake : (codeFence ++ s).takeWhile isTick = codeFence ++ s.takeWhile isTick :=
    List.takeWhile_append_of_pos (List.all_eq_true.mp (by decide))
  rw [ticksAtFront, htake, List.length_append]
  rfl

variable {content : String} {language : Option String}

/-- The lines of a block with a text below it: the fence with the language, the lines of the code
    and the fence. -/
theorem splitOn_codeBlock (hlanguage : '\n' ∉ (language.getD "").toList) (below : List Char) :
    Text.splitOn '\n' (codeBlock content language ++ '\n' :: below) =
      (codeFence ++ (language.getD "").toList) ::
        (Text.splitOn '\n' content.toList ++ codeFence :: Text.splitOn '\n' below) := by
  have hfirst : '\n' ∉ codeFence ++ (language.getD "").toList :=
    List.not_mem_append (by decide) hlanguage
  rw [codeBlock, List.append_assoc, List.cons_append, Text.splitOn_append_cons _ _ _ hfirst,
    List.append_assoc, List.cons_append, Text.splitOn_append,
    Text.splitOn_append_cons _ _ _ (by decide)]

/-- A block is read back exactly if its language does not begin with a grave accent and none of its
    lines with three of them. -/
theorem readFenced_codeBlock_iff (hfilled : content.toList ≠ [])
    (hlanguage : '\n' ∉ (language.getD "").toList) (below rest : List Char) :
    readFenced (codeBlock content language ++ '\n' :: below) = some (content.toList, rest) ↔
      rest = below ∧ ticksAtFront (language.getD "").toList = 0 ∧
        ∀ line ∈ Text.splitOn '\n' content.toList, ticksAtFront line < 3 := by
  have hfence : ticksAtFront codeFence = 3 := by decide
  rw [readFenced, splitOn_codeBlock hlanguage]
  simp only [ticksAtFront_codeFence, Option.map_eq_some_iff]
  constructor
  · rintro ⟨⟨inside, after⟩, hcut, heq⟩
    obtain ⟨hinside, hafter⟩ := Prod.mk.inj heq
    rcases cutAt_eq_some_iff.mp hcut with ⟨closing, hlines, hcloses, hnone⟩
    have hne : inside ≠ [] := fun hnil => hfilled (by rw [← hinside, hnil]; rfl)
    -- The lines that were read join to the code, so they are its lines.
    have hsame : Text.splitOn '\n' content.toList = inside := by
      rw [← hinside]
      refine Text.splitOn_joinWith '\n' inside hne fun line hline => ?_
      have hmem : line ∈ inside ++ closing :: after := List.mem_append_left _ hline
      rw [← hlines] at hmem
      rcases List.mem_append.mp hmem with h | h
      · exact Text.not_mem_of_mem_splitOn h
      · rcases List.mem_cons.mp h with rfl | h
        · decide
        · exact Text.not_mem_of_mem_splitOn h
    rw [hsame] at hlines ⊢
    obtain ⟨rfl, rfl⟩ := List.cons.inj (List.append_cancel_left hlines)
    have hle := of_decide_eq_true hcloses
    refine ⟨?_, by omega, fun line hline => ?_⟩
    · rw [← hafter, Text.joinWith_splitOn]
    · have hlt := of_decide_eq_false (hnone line hline)
      omega
  · rintro ⟨rfl, hplain, hshort⟩
    refine ⟨(Text.splitOn '\n' content.toList, Text.splitOn '\n' rest),
      cutAt_eq_some_iff.mpr ⟨codeFence, rfl, decide_eq_true (by omega), fun line hline => ?_⟩, ?_⟩
    · have hlt := hshort line hline
      exact decide_eq_false (by omega)
    · rw [Text.joinWith_splitOn, Text.joinWith_splitOn]

end Blocks

section Spans

/-- The runs of grave accents in a text, with the pieces between them. -/
def tickRuns (s : List Char) : List (List Char) := s.splitBy fun a b => isTick a == isTick b

/-- The code that a run of grave accents at the front of a text delimits, and the text after it. The
    code ends with the first run of the same length. -/
def readSpan (s : List Char) : Option (List Char × List Char) :=
  match tickRuns s with
  | [] => none
  | opening :: pieces =>
    if opening.all isTick then
      (cutAt (· == opening) pieces).map fun (inside, after) => (inside.flatten, after.flatten)
    else none

/-- A text that neither begins nor ends with a grave accent. -/
def PlainEnds (s : List Char) : Prop :=
  (∀ c ∈ s.head?, isTick c = false) ∧ ∀ c ∈ s.getLast?, isTick c = false

/-- Runs of a text are runs of the two parts of it, if only one of these has an accent where they
    meet. -/
theorem tickRuns_append {s t : List Char}
    (h : ∀ a ∈ s.getLast?, ∀ b ∈ t.head?, isTick a ≠ isTick b) :
    tickRuns (s ++ t) = tickRuns s ++ tickRuns t :=
  List.splitBy_append fun a ha b hb => beq_eq_false_iff_ne.mpr (h a ha b hb)

/-- A text of accents is one run. -/
theorem tickRuns_mark {mark : List Char} (hne : mark ≠ []) (h : ∀ c ∈ mark, isTick c = true) :
    tickRuns mark = [mark] := by
  refine List.splitBy_of_isChain hne (List.Pairwise.isChain ?_)
  refine List.pairwise_of_forall_mem_list fun a ha b hb => ?_
  rw [h a ha, h b hb]
  rfl

/-- Two pieces of a text that stand next to each other, of which one is a run of accents and the
    other one is not. -/
def Meets (a b : List Char) : Prop :=
  ∃ (ha : a ≠ []) (hb : b ≠ []), (isTick (a.getLast ha) == isTick (b.head hb)) = false

theorem tickRuns_meet (s : List Char) : (tickRuns s).IsChain Meets :=
  List.isChain_getLast_head_splitBy (fun a b => isTick a == isTick b) s

/-- Pieces that stand next to each other in a text are the runs of what they make up. -/
theorem tickRuns_flatten {s : List Char} {pieces : List (List Char)} (h : pieces <:+: tickRuns s) :
    tickRuns pieces.flatten = pieces := by
  have hmeet : pieces.IsChain Meets := by
    rcases h with ⟨front, back, heq⟩
    have hchain := tickRuns_meet s
    rw [← heq] at hchain
    exact hchain.left_of_append.right_of_append
  exact List.splitBy_flatten (fun hnil => List.nil_notMem_splitBy _ s (h.subset hnil))
    (fun _ hpiece => List.isChain_of_mem_splitBy (h.subset hpiece)) hmeet

namespace Meets

variable {mark piece : List Char} (hmark : ∀ c ∈ mark, isTick c = true)

include hmark

theorem head_plain (h : Meets mark piece) : ∀ c ∈ piece.head?, isTick c = false := by
  rcases h with ⟨hne, hpiece, hdiffer⟩
  intro c hc
  rw [List.head?_eq_some_head hpiece] at hc
  rw [hmark _ (List.getLast_mem hne), Option.some.inj hc] at hdiffer
  simpa using hdiffer

theorem last_plain (h : Meets piece mark) : ∀ c ∈ piece.getLast?, isTick c = false := by
  rcases h with ⟨hpiece, hne, hdiffer⟩
  intro c hc
  rw [List.getLast?_eq_some_getLast hpiece] at hc
  rw [hmark _ (List.head_mem hne), Option.some.inj hc] at hdiffer
  simpa using hdiffer

theorem mark_irrefl : ¬ Meets mark mark := by
  intro h
  have hlast := h.last_plain hmark
  rcases h with ⟨hne, _⟩
  have hfalse := hlast _ (List.getLast?_eq_some_getLast hne)
  rw [hmark _ (List.getLast_mem hne)] at hfalse
  exact Bool.noConfusion hfalse

/-- No accent begins the pieces that follow a run of accents. -/
theorem head_flatten {pieces : List (List Char)} (h : ∀ piece ∈ pieces.head?, Meets mark piece) :
    ∀ c ∈ pieces.flatten.head?, isTick c = false := by
  cases pieces with
  | nil => exact nofun
  | cons piece others =>
      have hmeets := h piece rfl
      rw [List.flatten_cons, List.head?_append_of_ne_nil _ hmeets.2.1]
      exact hmeets.head_plain hmark

/-- No accent ends the pieces in front of a run of accents. -/
theorem last_flatten {pieces : List (List Char)} (h : ∀ piece ∈ pieces.getLast?, Meets piece mark) :
    ∀ c ∈ pieces.flatten.getLast?, isTick c = false := by
  rcases List.eq_nil_or_concat pieces with rfl | ⟨others, piece, rfl⟩
  · exact nofun
  · rw [List.concat_eq_append] at h ⊢
    have hmeets := h piece List.getLast?_concat
    rw [List.flatten_append, List.flatten_singleton, List.getLast?_append_of_ne_nil _ hmeets.1]
    exact hmeets.last_plain hmark

end Meets

/-- A run of accents delimits code in front of a text: no accent is next to it on either side, and
    no run in the code is as long. -/
structure Delimits (mark content rest : List Char) : Prop where
  filled : mark ≠ []
  ticks : ∀ c ∈ mark, isTick c = true
  content_filled : content ≠ []
  plain : PlainEnds content
  rest_plain : ∀ c ∈ rest.head?, isTick c = false
  unique : mark ∉ tickRuns content

/-- Both marks are runs of the text, and the other runs are those of the code and of the rest. -/
theorem Delimits.tickRuns_eq {mark content rest : List Char} (h : Delimits mark content rest) :
    tickRuns (mark ++ content ++ mark ++ rest) =
      mark :: (tickRuns content ++ mark :: tickRuns rest) := by
  have hlast : ∀ a ∈ mark.getLast?, isTick a = true := fun a ha =>
    h.ticks a (List.mem_of_getLast? ha)
  have hhead : ∀ a ∈ mark.head?, isTick a = true := fun a ha => h.ticks a (List.mem_of_head? ha)
  -- The runs part wherever ticks meet what is none, and there are three such places.
  rw [tickRuns_append, tickRuns_append, tickRuns_append, tickRuns_mark h.filled h.ticks,
    List.append_assoc, List.append_assoc, List.singleton_append, List.singleton_append]
  · intro a ha b hb
    rw [hlast a ha, h.plain.1 b hb]
    exact Bool.noConfusion
  · intro a ha b hb
    rw [List.getLast?_append_of_ne_nil _ h.content_filled] at ha
    rw [h.plain.2 a ha, hhead b hb]
    exact Bool.noConfusion
  · intro a ha b hb
    rw [List.getLast?_append_of_ne_nil _ h.filled] at ha
    rw [hlast a ha, h.rest_plain b hb]
    exact Bool.noConfusion

/-- A run of accents that comes first in a text delimits the pieces in front of its next place. -/
theorem delimits_of_tickRuns {s mark : List Char} {inside after : List (List Char)}
    (hmark : ∀ c ∈ mark, isTick c = true) (hruns : tickRuns s = mark :: (inside ++ mark :: after))
    (hnone : mark ∉ inside) : Delimits mark inside.flatten after.flatten := by
  have hchain := tickRuns_meet s
  rw [hruns, List.isChain_cons, List.isChain_append, List.isChain_cons] at hchain
  rcases hchain with ⟨hopens, -, ⟨hfollows, -⟩, hends⟩
  -- The two runs of accents do not meet, so there is a piece between them.
  rcases List.eq_nil_or_concat' inside with rfl | ⟨front, last, hinside⟩
  · exact absurd (hopens mark rfl) (Meets.mark_irrefl hmark)
  · have hlast := hends last (by rw [hinside, List.getLast?_concat]; rfl) mark rfl
    have hmem : last ∈ inside := hinside ▸ List.mem_concat_self
    have hfirst : ∀ piece ∈ inside.head?, Meets mark piece := by
      rw [List.head?_append_of_ne_nil _ (List.ne_nil_of_mem hmem)] at hopens
      exact hopens
    have hwithin : inside <:+: tickRuns s := hruns ▸ ⟨[mark], mark :: after, by simp⟩
    exact {
      filled := hlast.2.1
      ticks := hmark
      content_filled := fun hnil => hlast.1 (List.flatten_eq_nil_iff.mp hnil last hmem)
      plain := ⟨Meets.head_flatten hmark hfirst,
        Meets.last_flatten hmark fun piece hpiece => hends piece hpiece mark rfl⟩
      rest_plain := Meets.head_flatten hmark hfollows
      unique := by
        rw [tickRuns_flatten hwithin]
        exact hnone }

/-- The reader accepts code between two equal runs of accents that delimit it. -/
theorem readSpan_eq_some_iff {s content rest : List Char} :
    readSpan s = some (content, rest) ↔
      ∃ mark, s = mark ++ content ++ mark ++ rest ∧ Delimits mark content rest := by
  constructor
  · intro h
    rw [readSpan] at h
    split at h
    · exact absurd h nofun
    · rename_i mark pieces hruns
      split at h
      · rename_i hall
        rcases Option.map_eq_some_iff.mp h with ⟨⟨inside, after⟩, hcut, heq⟩
        obtain ⟨rfl, rfl⟩ := Prod.mk.inj heq
        rcases cutAt_eq_some_iff.mp hcut with ⟨closing, rfl, hcloses, hnone⟩
        rw [beq_iff_eq.mp hcloses] at hruns
        -- Put together again, the runs are the text.
        have hflat : (tickRuns s).flatten = s := List.flatten_splitBy _ s
        refine ⟨mark, ?_, delimits_of_tickRuns (List.all_eq_true.mp hall) hruns fun hin =>
          beq_eq_false_iff_ne.mp (hnone mark hin) rfl⟩
        rw [← hflat, hruns]
        simp
      · exact absurd h nofun
  · rintro ⟨mark, rfl, h⟩
    have hcut : cutAt (· == mark) (tickRuns content ++ mark :: tickRuns rest) =
        some (tickRuns content, tickRuns rest) :=
      cutAt_eq_some_iff.mpr ⟨mark, rfl, beq_self_eq_true mark, fun run hrun =>
        beq_eq_false_iff_ne.mpr fun heq => h.unique (heq ▸ hrun)⟩
    unfold readSpan
    rw [h.tickRuns_eq]
    simp only [hcut, List.all_eq_true.mpr h.ticks, if_true, Option.map_some]
    rw [tickRuns, tickRuns, List.flatten_splitBy, List.flatten_splitBy]

/-- Code inside a line is read back exactly if no accent stands at its ends and no accent in it
    stands alone. -/
theorem readSpan_inlineCode_iff {content : String} (hfilled : content.toList ≠ [])
    {below : List Char} (hbelow : ∀ c ∈ below.head?, isTick c = false) (rest : List Char) :
    readSpan (inlineCode content ++ below) = some (content.toList, rest) ↔
      rest = below ∧ PlainEnds content.toList ∧ codeMark ∉ tickRuns content.toList := by
  rw [readSpan_eq_some_iff, inlineCode]
  constructor
  · rintro ⟨mark, heq, hne, hmark, -, hplain, -, hnone⟩
    rcases List.exists_cons_of_ne_nil hne with ⟨first, others, rfl⟩
    have hfirst : first = graveAccent := beq_iff_eq.mp (hmark first List.mem_cons_self)
    rw [hfirst] at heq hnone
    cases others with
    | nil =>
        simp only [codeMark, List.append_assoc, List.append_cancel_left_eq] at heq
        exact ⟨heq.symm, hplain, hnone⟩
    | cons next others =>
        -- A longer mark would go on where the code begins.
        rcases List.exists_cons_of_ne_nil hfilled with ⟨c, code, hcode⟩
        have hnext := hmark next (List.mem_cons_of_mem _ List.mem_cons_self)
        rw [hcode] at heq hplain
        simp only [codeMark, List.cons_append, List.nil_append, List.cons.injEq, true_and] at heq
        rw [← heq.1, hplain.1 c rfl] at hnext
        exact absurd hnext Bool.noConfusion
  · rintro ⟨rfl, hplain, hnone⟩
    have hmark : ∀ c ∈ codeMark, isTick c = true := List.all_eq_true.mp (by decide)
    exact ⟨codeMark, rfl, ⟨List.cons_ne_nil _ _, hmark, hfilled, hplain, hbelow, hnone⟩⟩

end Spans

section Places

variable {indent : Int}

/-- A grave accent is neither blank, nor a bracket, nor does it cling to a word. -/
theorem needsSpace_tick {out : List Char} (others : List Char)
    (hout : out.getLast? = some graveAccent) : needsSpace out (graveAccent :: others) = true := by
  have hblank : Text.isBlank graveAccent = false := by decide
  have hclings : clingsToWord graveAccent = false := by decide
  have hopens : opensBracket graveAccent = false := by decide
  unfold needsSpace
  rw [hout]
  change (!Text.isBlank graveAccent && !Text.isBlank graveAccent &&
    !(others.isEmpty && clingsToWord graveAccent) && !opensBracket graveAccent) = true
  rw [hblank, hclings, hopens, Bool.and_false]
  rfl

/-- What is written for a node after a grave accent begins with another character. -/
theorem place_after_tick (node : Node) (rest : List Node) {out : List Char}
    (hout : out.getLast? = some graveAccent) (hne : node.block indent ≠ []) :
    ∃ c, isTick c = false ∧ out ++ [c] <+: place node rest out (node.block indent) := by
  rcases place_cases node rest out indent with ⟨hnil, _⟩ | ⟨hinline, _, heq⟩ | ⟨hblock, _, heq⟩
  · exact absurd hnil hne
  · rw [heq, lead, if_pos hinline]
    by_cases hspace : needsSpace out (node.block indent) = true
    · rw [if_pos hspace]
      exact ⟨' ', by decide, List.prefix_append _ _⟩
    -- Without a space the text of the node follows, which then does not begin with a tick.
    · rcases List.exists_cons_of_ne_nil hne with ⟨first, others, hwritten⟩
      rw [if_neg hspace, hwritten]
      refine ⟨first, Bool.eq_false_iff.mpr fun htick => hspace ?_, others, by simp⟩
      rw [hwritten, beq_iff_eq.mp htick]
      exact needsSpace_tick others hout
  · have hinline : ¬ node.isInline = true := Bool.eq_false_iff.mp (Node.isInline_of_isBlock hblock)
    have hfilled : ¬ out.isEmpty = true := fun hempty => by
      rw [List.isEmpty_iff.mp hempty] at hout
      exact absurd hout.symm (Option.some_ne_none _)
    have hends : trimLineEnds out = out := Text.trimEndBy_eq_self fun c hc => by
      rw [Option.some.inj (hc.symm.trans hout)]
      decide
    have hopen : out ++ ['\n'] <+: openLine node.isSection out := by
      rw [openLine, if_neg hfilled]
      split
      · rw [hends]
        exact ⟨['\n'], by simp⟩
      · have hopened : ¬ out.getLast? = some '\n' := fun hend =>
          absurd (hout.symm.trans hend) (by decide)
        simp only [if_neg hopened, List.prefix_refl]
    rw [heq, lead, if_neg hinline, List.append_assoc]
    exact ⟨'\n', by decide, hopen.trans (List.prefix_append _ _)⟩

/-- Whatever is written after a grave accent does not make a longer run of it. -/
theorem layOut_after_tick {out : List Char} (hout : out.getLast? = some graveAccent)
    (nodes : List Node) :
    ∃ below, layOut indent out nodes = out ++ below ∧ ∀ c ∈ below.head?, isTick c = false := by
  induction nodes with
  | nil => exact ⟨[], (List.append_nil out).symm, nofun⟩
  | cons node rest ih =>
      by_cases hnil : node.block indent = []
      · rw [layOut, hnil, place_of_nil]
        exact ih
      · rcases place_after_tick node rest hout hnil with ⟨c, hc, more, hplace⟩
        have hlast : ∀ c ∈ out.getLast?, (c == '\n') = false := fun c hc => by
          rw [Option.some.inj (hc.symm.trans hout)]
          decide
        -- Only line ends can be taken away again, and one of them is put back.
        have hthere : out ++ [c] <+: layOut indent out (node :: rest) := by
          have hgrown : Grown (out ++ [c]) (layOut indent out (node :: rest)) := by
            rw [layOut, ← hplace]
            exact (Grown.refl.append more).trans (grown_layOut _ _ _)
          by_cases hend : c = '\n'
          · rw [hend] at hgrown ⊢
            exact Grown.still_there hlast (by decide) hgrown
          · have hc : ∀ d ∈ (out ++ [c]).getLast?, (d == '\n') = false := fun d hd => by
              rw [List.getLast?_concat] at hd
              rw [← Option.some.inj hd]
              exact beq_eq_false_iff_ne.mpr hend
            rw [← List.append_nil (out ++ [c])] at hgrown ⊢
            exact Grown.still_there hc List.nil_prefix hgrown
        rcases hthere with ⟨below, hbelow⟩
        refine ⟨c :: below, by rw [← hbelow]; simp, fun d hd => ?_⟩
        rw [← Option.some.inj hd]
        exact hc

/-- Code inside a line stands among other nodes with no grave accent next to its marks. -/
theorem layOut_inlineCode (content : String) (language : Option String) (indent : Int)
    (front back : List Node) :
    ∃ above below, layOut indent [] (front ++ .code content language true :: back) =
        above ++ inlineCode content ++ below ∧
      (∀ c ∈ above.getLast?, isTick c = false) ∧ ∀ c ∈ below.head?, isTick c = false := by
  let node : Node := .code content language true
  have hblock : node.block indent = inlineCode content := rfl
  rw [layOut_append, layOut, hblock, place_of_inline rfl]
  generalize layFront indent (node :: back) [] front = out
  -- What is written so far ends with the mark, whatever stood above.
  have hlast : (lead node out (inlineCode content) ++ inlineCode content).getLast? =
      some graveAccent := by
    rw [inlineCode, ← List.append_assoc, codeMark, List.getLast?_concat]
  rcases layOut_after_tick hlast back with ⟨below, heq, hbelow⟩
  refine ⟨lead node out (inlineCode content), below, heq, fun c hc => ?_, hbelow⟩
  have hinline : node.isInline = true := rfl
  rw [lead, if_pos hinline] at hc
  split at hc
  · rw [List.getLast?_concat] at hc
    rw [← Option.some.inj hc]
    decide
  · rename_i hspace
    refine Bool.eq_false_iff.mpr fun htick => hspace ?_
    rw [beq_iff_eq.mp htick] at hc
    exact needsSpace_tick _ hc

end Places

end Markdown

end PageDistill
