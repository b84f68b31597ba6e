import PageDistill.Proofs.Markdown.Layout
import PageDistill.Proofs.Markdown.NestedLists
import PageDistill.Proofs.Markdown.TextKept

/-!
# The Lines of a List

Where a list of texts stands in what is written for the nodes around it.

The lines of a list begin alike, but the first one does not stay so. Whatever is put in front of
some contents goes before the first line only, and so does what trimming takes away. So the first
line has a margin of its own, and that changes only as long as nothing stands above the list.
`Shows` keeps the two margins apart, and says whether the list is still on top. What a block around
the list does with it is then a rule on these three: a quote puts its mark before both margins, an
item puts its marker before the first one, and trimming takes the blank off the first one.

## Main definitions

* `itemMarker`, `markedLines`: The marker of an item, and the lines of a list with its margins.
* `Shows`: A text that a list stands in.
* `itemStart`: What an item has in front of its contents.

## Theorems

* `dropWhile_markedLines`: What trimming takes from the front of a list.
* `isAllBlank_textAbove`, `layOut_around`: What stands above a block among others.
* `splitOn_markedLines`: The lines of a list are lines of the text that it stands in.
* `Shows.trim_layOut`, `Shows.quote`, `Shows.semantic`, `Shows.item`, `Shows.around`: What becomes
  of a list in the blocks around it.
-/

namespace PageDistill

namespace Markdown

/-- The marker of an item. -/
def itemMarker (ordered : Bool) (number : Nat) : List Char :=
  if ordered then Number.naturalText number ++ ['.'] else ['-']

/-- The lines of items that hold a text, behind a margin and counted from a number on. -/
def markedRows (margin : List Char) (ordered : Bool) (number : Nat) :
    List String → List (List Char)
  | [] => []
  | text :: texts =>
    (margin ++ itemMarker ordered number ++ ' ' :: text.toList) ::
      markedRows margin ordered (number + 1) texts

/-- The lines of a list of texts. The first line has a margin of its own. -/
def markedLines (lead margin : List Char) (ordered : Bool) : List String → List (List Char)
  | [] => []
  | text :: texts =>
    (lead ++ itemMarker ordered 1 ++ ' ' :: text.toList) :: markedRows margin ordered 2 texts

/-- A marker begins with a digit or a dash. -/
theorem itemMarker_eq_cons (ordered : Bool) (number : Nat) :
    ∃ c rest, itemMarker ordered number = c :: rest ∧ Text.isBlank c = false := by
  unfold itemMarker
  cases ordered with
  | false => exact ⟨'-', [], rfl, by decide⟩
  | true =>
      rcases List.exists_cons_of_ne_nil (Number.naturalText_ne_nil number) with ⟨c, rest, heq⟩
      refine ⟨c, rest ++ ['.'], by rw [if_pos rfl, heq]; rfl, Text.isBlank_of_isDigit ?_⟩
      exact Number.isDigit_of_mem_naturalText (heq ▸ List.mem_cons_self)

theorem lineEnd_not_mem_itemMarker (ordered : Bool) (number : Nat) :
    '\n' ∉ itemMarker ordered number := by
  unfold itemMarker
  cases ordered with
  | false => exact fun h => absurd (List.mem_singleton.mp h) (by decide)
  | true =>
      intro h
      rcases List.mem_append.mp h with h | h
      · exact Number.not_mem_naturalText number (by decide) h
      · exact absurd h (by decide)

section

variable {ordered : Bool} {texts : List String} {lead margin : List Char}

theorem mem_markedRows {number : Nat} {row : List Char}
    (h : row ∈ markedRows margin ordered number texts) :
    ∃ number, ∃ text ∈ texts, row = margin ++ itemMarker ordered number ++ ' ' :: text.toList := by
  induction texts generalizing number with
  | nil => exact absurd h List.not_mem_nil
  | cons text rest ih =>
      rcases List.mem_cons.mp h with rfl | h
      · exact ⟨number, text, List.mem_cons_self, rfl⟩
      · rcases ih h with ⟨n, t, ht, hrow⟩
        exact ⟨n, t, List.mem_cons_of_mem text ht, hrow⟩

/-- Every line of a list is a margin, a marker and a text. -/
theorem mem_markedLines {row : List Char} (h : row ∈ markedLines lead margin ordered texts) :
    ∃ start number, ∃ text ∈ texts, (start = lead ∨ start = margin) ∧
      row = start ++ itemMarker ordered number ++ ' ' :: text.toList := by
  cases texts with
  | nil => exact absurd h List.not_mem_nil
  | cons text rest =>
      rcases List.mem_cons.mp h with rfl | h
      · exact ⟨lead, 1, text, List.mem_cons_self, Or.inl rfl, rfl⟩
      · rcases mem_markedRows h with ⟨n, t, ht, hrow⟩
        exact ⟨margin, n, t, List.mem_cons_of_mem text ht, Or.inr rfl, hrow⟩

/-- Every line may get more margin. -/
theorem map_markedLines (mark : List Char) :
    (markedLines lead margin ordered texts).map (mark ++ ·) =
      markedLines (mark ++ lead) (mark ++ margin) ordered texts := by
  have hrows : ∀ number (texts : List String),
      (markedRows margin ordered number texts).map (mark ++ ·) =
        markedRows (mark ++ margin) ordered number texts := by
    intro number texts
    induction texts generalizing number with
    | nil => rfl
    | cons text rest ih =>
        rw [markedRows, markedRows, List.map_cons, ih]
        simp only [List.append_assoc]
  cases texts with
  | nil => rfl
  | cons text rest =>
      rw [markedLines, markedLines, List.map_cons, hrows]
      simp only [List.append_assoc]

variable (hne : texts ≠ []) (hplain : ∀ text ∈ texts, PlainLine text)

include hplain

/-- The lines of a list end in its texts. -/
theorem endsFilled_of_mem_markedLines {row : List Char}
    (h : row ∈ markedLines lead margin ordered texts) : Text.EndsFilled row := by
  rcases mem_markedLines h with ⟨start, number, text, htext, _, rfl⟩
  have hfilled := Text.endsFilled_of_trimmed (hplain text htext).filled (hplain text htext).trimmed
  exact (hfilled.cons ' ').append_left _

/-- None of them has a line end. -/
theorem lineEnd_not_mem_markedLines (hlead : '\n' ∉ lead) (hmargin : '\n' ∉ margin)
    {row : List Char} (h : row ∈ markedLines lead margin ordered texts) : '\n' ∉ row := by
  rcases mem_markedLines h with ⟨start, number, text, htext, hstart, rfl⟩
  have hsingle : '\n' ∉ start := by
    rcases hstart with rfl | rfl
    · exact hlead
    · exact hmargin
  intro hmem
  rcases List.mem_append.mp hmem with hmem | hmem
  · rcases List.mem_append.mp hmem with hmem | hmem
    · exact hsingle hmem
    · exact lineEnd_not_mem_itemMarker ordered number hmem
  · rcases List.mem_cons.mp hmem with hmem | hmem
    · exact absurd hmem (by decide)
    · exact (hplain text htext).single hmem

omit hplain
include hne

theorem markedLines_ne_nil : markedLines lead margin ordered texts ≠ [] := by
  cases texts with
  | nil => exact absurd rfl hne
  | cons text rest => exact List.cons_ne_nil _ _

variable (ordered lead margin) in
-- The margin of the first line stands in front of all lines.
theorem joinWith_markedLines (front : List Char) :
    Text.joinWith ['\n'] (markedLines (front ++ lead) margin ordered texts) =
      front ++ Text.joinWith ['\n'] (markedLines lead margin ordered texts) := by
  cases texts with
  | nil => exact absurd rfl hne
  | cons text rest =>
      rw [markedLines, markedLines, List.append_assoc, List.append_assoc,
        Text.joinWith_append_head, ← List.append_assoc lead]

/-- Dropping blank from the front of a list drops it from the first margin: the marker stays. -/
theorem dropWhile_markedLines (below : List Char) :
    (Text.joinWith ['\n'] (markedLines lead margin ordered texts) ++ below).dropWhile Text.isBlank =
      Text.joinWith ['\n'] (markedLines (lead.dropWhile Text.isBlank) margin ordered texts) ++
        below := by
  -- The first marker is not blank, so only what leads up to it is dropped.
  have hmarker : ∃ c rest,
      Text.joinWith ['\n'] (markedLines [] margin ordered texts) ++ below = c :: rest ∧
        Text.isBlank c = false := by
    cases texts with
    | nil => exact absurd rfl hne
    | cons text others =>
        rcases itemMarker_eq_cons ordered 1 with ⟨c, rest, hmarker, hc⟩
        refine ⟨c, Text.joinWith ['\n'] ((rest ++ ' ' :: text.toList) ::
          markedRows margin ordered 2 others) ++ below, ?_, hc⟩
        rw [markedLines, hmarker]
        exact congrArg (· ++ below) (Text.joinWith_append_head ['\n'] [c] _ _)
  have hsplit : ∀ front : List Char,
      Text.joinWith ['\n'] (markedLines front margin ordered texts) ++ below =
        front ++ (Text.joinWith ['\n'] (markedLines [] margin ordered texts) ++ below) := by
    intro front
    have h := joinWith_markedLines ordered [] margin hne front
    rw [List.append_nil] at h
    rw [h, List.append_assoc]
  rcases hmarker with ⟨c, rest, hmarker, hc⟩
  rw [hsplit lead, hsplit (lead.dropWhile Text.isBlank), hmarker, List.dropWhile_append]
  split
  · rename_i hempty
    rw [List.isEmpty_iff.mp hempty, List.nil_append,
      List.dropWhile_cons_of_neg (Bool.eq_false_iff.mp hc)]
  · rfl

end

/-- What is put between nodes is not seen. -/
theorem visible_lead (node : Node) (out written : List Char) :
    Text.visible (lead node out written) = Text.visible out := by
  unfold lead
  split
  · split
    · rw [Text.visible_append]
      exact List.append_nil _
    · rfl
  · exact visible_openLine _ out

/-- Placing nodes adds nothing that shows. -/
theorem visible_layFront (indent : Int) (back : List Node) (out : List Char) (front : List Node) :
    Text.visible (layFront indent back out front) =
      Text.visible out ++ front.flatMap fun node => Text.visible (node.block indent) := by
  induction front generalizing out with
  | nil => exact (List.append_nil _).symm
  | cons node front ih =>
      rw [layFront, ih, visible_place_block, List.flatMap_cons, List.append_assoc]

/-- What stands above a node is blank exactly when all nodes in front of it are. -/
theorem isAllBlank_textAbove (indent : Int) (front : List Node) (node : Node) (back : List Node) :
    Text.isAllBlank (textAbove indent (front ++ node :: back) front.length) =
      front.all fun other => Text.isAllBlank (other.block indent) := by
  rw [Bool.eq_iff_iff, ← Text.visible_eq_nil_iff, textAbove_eq, visible_lead, visible_layFront,
    List.all_eq_true]
  change List.flatMap _ front = [] ↔ _
  rw [List.flatMap_eq_nil_iff]
  exact forall₂_congr fun other _ => Text.visible_eq_nil_iff _

/-- A block among other nodes is laid out between what stands above it and a line end. -/
theorem layOut_around {indent : Int} {node : Node} (h : node.ShowsBlock indent)
    (front back : List Node) :
    ∃ above below,
      layOut indent [] (front ++ node :: back) = above ++ node.block indent ++ '\n' :: below ∧
      AtLineStart above ∧
      Text.isAllBlank above = front.all fun other => Text.isAllBlank (other.block indent) := by
  rcases (layOut_laidOut (front ++ node :: back)).lines front node back rfl h with
    ⟨hstart, below, heq⟩
  refine ⟨_, below, ?_, hstart, isAllBlank_textAbove indent front node back⟩
  rw [← heq, List.append_assoc _ ['\n'], List.singleton_append]

/-- A list of texts stands in a text on lines of its own, with a margin for the first line and one
    for the others. Whether it is on top says that there is nothing above it; else there is
    something that is not blank. -/
structure Shows (ordered : Bool) (texts : List String) (lead margin : List Char) (top : Bool)
    (written : List Char) : Prop where
  single : '\n' ∉ lead ∧ '\n' ∉ margin
  place : ∃ above below,
    written = above ++ Text.joinWith ['\n'] (markedLines lead margin ordered texts) ++ below ∧
      AtLineStart above ∧ (∀ c ∈ below.head?, c = '\n') ∧
      if top then above = [] else ∃ c ∈ above, Text.isBlank c = false

section

variable {ordered : Bool} {texts : List String} {lead margin : List Char} {top : Bool}
variable (hne : texts ≠ []) (hplain : ∀ text ∈ texts, PlainLine text)

include hne hplain

variable (ordered) in
theorem endsFilled_markedLines (lead margin : List Char) :
    Text.EndsFilled (Text.joinWith ['\n'] (markedLines lead margin ordered texts)) :=
  .joinWith _ (markedLines_ne_nil hne) fun _ hrow => endsFilled_of_mem_markedLines hplain hrow

/-- The lines of a text with a list in it: those above the list, those of the list, and others. -/
theorem splitOn_markedLines (hlead : '\n' ∉ lead) (hmargin : '\n' ∉ margin)
    {above below : List Char} (habove : AtLineStart above) (hbelow : ∀ c ∈ below.head?, c = '\n') :
    ∃ front back, Text.splitOn '\n'
        (above ++ Text.joinWith ['\n'] (markedLines lead margin ordered texts) ++ below) =
          front ++ markedLines lead margin ordered texts ++ back ∧ (front = [] ↔ above = []) := by
  have hrows : Text.splitOn '\n' (Text.joinWith ['\n'] (markedLines lead margin ordered texts)) =
      markedLines lead margin ordered texts :=
    Text.splitOn_joinWith '\n' _ (markedLines_ne_nil hne) fun _ hrow =>
      lineEnd_not_mem_markedLines hplain hlead hmargin hrow
  -- What follows the list begins a new line, so it does not join the last one.
  have hback : ∃ back, Text.splitOn '\n'
      (Text.joinWith ['\n'] (markedLines lead margin ordered texts) ++ below) =
        markedLines lead margin ordered texts ++ back := by
    cases below with
    | nil => exact ⟨[], by rw [List.append_nil, List.append_nil, hrows]⟩
    | cons c rest =>
        rw [hbelow c rfl, Text.splitOn_append, hrows]
        exact ⟨_, rfl⟩
  rcases hback with ⟨back, hback⟩
  rcases List.eq_nil_or_concat above with rfl | ⟨before, last, rfl⟩
  · exact ⟨[], back, hback, fun _ => rfl, fun _ => rfl⟩
  · rw [List.concat_eq_append] at habove ⊢
    have hlast : last = '\n' := habove last (by rw [List.getLast?_concat]; rfl)
    refine ⟨Text.splitOn '\n' before, back, ?_, fun hnil => ?_, fun hnil => ?_⟩
    · rw [hlast, List.append_assoc, List.append_assoc, List.singleton_append, Text.splitOn_append,
        hback, List.append_assoc]
    · exact absurd hnil (Text.splitOn_ne_nil '\n' before)
    · exact absurd hnil (List.append_ne_nil_of_right_ne_nil _ (List.cons_ne_nil _ _))

omit hne hplain

theorem AtLineStart.of_getLast? {s : List Char} (h : s.getLast? = some '\n') : AtLineStart s :=
  fun _ hc => (Option.some.inj (h.symm.trans hc)).symm

/-- Texts that each end at the start of a line do so together. -/
theorem AtLineStart.append {s t : List Char} (hs : AtLineStart s) (ht : AtLineStart t) :
    AtLineStart (s ++ t) := by
  by_cases hnil : t = []
  · rw [hnil, List.append_nil]
    exact hs
  · intro c hc
    rw [List.getLast?_append_of_ne_nil _ hnil] at hc
    exact ht c hc

/-- Dropping from the front does not change the end, unless all is dropped. -/
theorem AtLineStart.dropWhile {s : List Char} (hs : AtLineStart s) (p : Char → Bool) :
    AtLineStart (s.dropWhile p) := by
  rcases List.dropWhile_suffix p (l := s) with ⟨front, hfront⟩
  intro c hc
  refine hs c ?_
  rw [← hfront, List.getLast?_append_of_ne_nil _ fun hnil => ?_]
  · exact hc
  · rw [hnil] at hc
    exact absurd hc nofun

/-- What begins with a line end, or is empty, does so with more behind it and with its end
    trimmed. -/
theorem head?_append_trimEnd {s t : List Char} (hs : ∀ c ∈ s.head?, c = '\n')
    (ht : ∀ c ∈ t.head?, c = '\n') : ∀ c ∈ (Text.trimEnd (s ++ t)).head?, c = '\n' := by
  intro c hc
  have hmem : c ∈ (s ++ t).head? := by
    rcases Text.trimEndBy_prefix Text.isBlank (s ++ t) with ⟨rest, hrest⟩
    rw [← hrest, List.head?_append, ← Text.trimEnd, Option.mem_def.mp hc]
    rfl
  cases s with
  | nil => exact ht c hmem
  | cons d rest => exact hs c hmem

include hne hplain

/-- A list in the middle of a text that is trimmed. What is above it is trimmed with it, and if that
    is all blank, so is the margin of its first line. -/
theorem Shows.trim {written : List Char} (h : Shows ordered texts lead margin top written)
    {front back : List Char} (hfront : AtLineStart front) (hback : ∀ c ∈ back.head?, c = '\n') :
    Shows ordered texts
      (if top && Text.isAllBlank front then lead.dropWhile Text.isBlank else lead) margin
      (top && Text.isAllBlank front) (Text.trim (front ++ written ++ back)) := by
  rcases h.place with ⟨above, below, rfl, habove, hbelow, htop⟩
  have hsplit : front ++ (above ++ Text.joinWith ['\n'] (markedLines lead margin ordered texts) ++
        below) ++ back =
      (front ++ above) ++ (Text.joinWith ['\n'] (markedLines lead margin ordered texts) ++
        (below ++ back)) := by
    simp only [List.append_assoc]
  rw [hsplit]
  change Shows _ _ _ _ _ (Text.trimEnd (List.dropWhile Text.isBlank _))
  rw [List.dropWhile_append]
  by_cases hblank : (top && Text.isAllBlank front) = true
  · rw [if_pos hblank, hblank]
    rw [Bool.and_eq_true] at hblank
    rw [if_pos hblank.1] at htop
    have hnil : (front ++ above).dropWhile Text.isBlank = [] := by
      rw [htop, List.append_nil, Text.dropWhile_eq_nil_iff]
      exact List.all_eq_true.mp hblank.2
    rw [hnil, if_pos List.isEmpty_nil, dropWhile_markedLines hne,
      (endsFilled_markedLines ordered hne hplain _ _).trimEnd_append]
    exact ⟨⟨fun hmem => h.single.1 ((List.dropWhile_sublist _).subset hmem), h.single.2⟩, [], _,
      rfl, nofun, head?_append_trimEnd hbelow hback, rfl⟩
  · rw [if_neg hblank, Bool.eq_false_iff.mpr hblank]
    -- Something above the list is not blank, so trimming stops there.
    have hfilled : ∃ c ∈ front ++ above, Text.isBlank c = false := by
      cases top with
      | false =>
          rcases htop with ⟨c, hc, hfalse⟩
          exact ⟨c, List.mem_append_right front hc, hfalse⟩
      | true =>
          rw [Bool.true_and, Text.isAllBlank, List.all_eq_true] at hblank
          push Not at hblank
          rcases hblank with ⟨c, hc, hne⟩
          exact ⟨c, List.mem_append_left above hc, Bool.eq_false_iff.mpr hne⟩
    rcases hfilled with ⟨c, hc, hfalse⟩
    have hkept := Text.mem_dropWhile_of_filled hfalse hc
    rw [if_neg (mt List.isEmpty_iff.mp (List.ne_nil_of_mem hkept)), ← List.append_assoc,
      ((endsFilled_markedLines ordered hne hplain _ _).append_left _).trimEnd_append]
    exact ⟨h.single, _, _, rfl, (hfront.append habove).dropWhile _,
      head?_append_trimEnd hbelow hback, c, hkept, hfalse⟩

/-- A list that is shown is not empty. -/
theorem Shows.ne_nil {written : List Char} (h : Shows ordered texts lead margin top written) :
    written ≠ [] := by
  rcases h.place with ⟨above, below, heq, _⟩
  rw [heq]
  refine List.append_ne_nil_of_left_ne_nil (List.append_ne_nil_of_right_ne_nil above ?_) below
  exact (endsFilled_markedLines ordered hne hplain lead margin).ne_nil

/-- A node that a list stands in, among others that are laid out and trimmed. -/
theorem Shows.trim_layOut {indent : Int} {node : Node} (hblock : node.isBlock = true)
    (h : Shows ordered texts lead margin top (node.block indent)) (front back : List Node) :
    Shows ordered texts
      (if top && front.all (fun other => Text.isAllBlank (other.block indent)) then
        lead.dropWhile Text.isBlank else lead) margin
      (top && front.all fun other => Text.isAllBlank (other.block indent))
      (Text.trim (layOut indent [] (front ++ node :: back))) := by
  rcases layOut_around ⟨hblock, h.ne_nil hne hplain⟩ front back with
    ⟨above, below, hlaid, habove, hblank⟩
  rw [hlaid, ← hblank]
  exact h.trim hne hplain habove fun c hc => (Option.some.inj hc).symm

omit hne hplain

theorem atLineStart_flatMap (lines : List (List Char)) :
    AtLineStart (lines.flatMap (· ++ ['\n'])) := by
  induction lines with
  | nil => exact nofun
  | cons line lines ih =>
      rw [List.flatMap_cons]
      refine AtLineStart.append (fun c hc => ?_) ih
      rw [List.getLast?_append_of_ne_nil _ (List.cons_ne_nil _ _)] at hc
      exact (Option.some.inj hc).symm

theorem head?_flatMap (lines : List (List Char)) :
    ∀ c ∈ (lines.flatMap (['\n'] ++ ·)).head?, c = '\n' := by
  cases lines with
  | nil => exact nofun
  | cons line lines => exact fun c hc => (Option.some.inj hc).symm

/-- What a text begins with if all of it does, when more is put behind. -/
theorem head?_append {s t : List Char} (hs : ∀ c ∈ s.head?, c = '\n')
    (ht : ∀ c ∈ t.head?, c = '\n') : ∀ c ∈ (s ++ t).head?, c = '\n' := by
  cases s with
  | nil => exact ht
  | cons d rest => exact hs

/-- A list stays where it is when lines are put around it. It stays on top if there are none
    above. -/
theorem Shows.around {written : List Char} (h : Shows ordered texts lead margin top written)
    (before after : List (List Char))
    (hbefore : ∀ line ∈ before, ∃ c ∈ line, Text.isBlank c = false) :
    Shows ordered texts lead margin (top && before.isEmpty)
      (Text.joinWith ['\n'] (before ++ written :: after)) := by
  rcases h.place with ⟨above, below, rfl, habove, hbelow, htop⟩
  -- The lines around add to what stands above and below. The top is left only by a line above.
  refine ⟨h.single, before.flatMap (· ++ ['\n']) ++ above, below ++ after.flatMap (['\n'] ++ ·), ?_,
    (atLineStart_flatMap before).append habove, head?_append hbelow (head?_flatMap after), ?_⟩
  · have hjoin := Text.joinWith_around ['\n'] (List.cons_ne_nil (above ++
      Text.joinWith ['\n'] (markedLines lead margin ordered texts) ++ below) []) before after
    rw [List.append_assoc before, List.singleton_append] at hjoin
    rw [hjoin]
    simp only [Text.joinWith, List.append_assoc]
  · cases before with
    | nil =>
        rw [List.isEmpty_nil, Bool.and_true]
        exact htop
    | cons line before =>
        rw [List.isEmpty_cons, Bool.and_false, if_neg Bool.false_ne_true]
        rcases hbefore line List.mem_cons_self with ⟨c, hc, hfalse⟩
        refine ⟨c, List.mem_append_left _ (List.mem_flatMap.mpr ⟨line, List.mem_cons_self, ?_⟩),
          hfalse⟩
        exact List.mem_append_left _ hc

/-- Lines around a list hide what is above it, if they are not blank. -/
theorem Shows.framed {written : List Char} (h : Shows ordered texts lead margin top written)
    {front back : List Char} (hfront : AtLineStart front)
    (hfilled : ∃ c ∈ front, Text.isBlank c = false) (hback : ∀ c ∈ back.head?, c = '\n') :
    Shows ordered texts lead margin false (front ++ written ++ back) := by
  rcases h.place with ⟨above, below, rfl, habove, hbelow, _⟩
  refine ⟨h.single, front ++ above, below ++ back, ?_, hfront.append habove,
    head?_append hbelow hback, ?_⟩
  · simp only [List.append_assoc]
  · rw [if_neg Bool.false_ne_true]
    rcases hfilled with ⟨c, hc, hfalse⟩
    exact ⟨c, List.mem_append_left above hc, hfalse⟩

include hne hplain

/-- A quote puts its mark before every line. -/
theorem Shows.quote {inner : List Char} (h : Shows ordered texts lead margin top inner) :
    Shows ordered texts ('>' :: ' ' :: lead) ('>' :: ' ' :: margin) top (quoteText inner) := by
  have hinner : ¬ inner.isEmpty = true := mt List.isEmpty_iff.mp (h.ne_nil hne hplain)
  rcases h.place with ⟨before, after, rfl, hbefore, hafter, htop⟩
  rcases splitOn_markedLines hne hplain h.single.1 h.single.2 hbefore hafter with
    ⟨above, below, hlines, hnil⟩
  have hrows : (markedLines lead margin ordered texts).map
      (fun line => Text.trimEnd ('>' :: ' ' :: line)) =
        markedLines ('>' :: ' ' :: lead) ('>' :: ' ' :: margin) ordered texts := by
    refine (List.map_congr_left fun row hrow => ?_).trans (map_markedLines ['>', ' '])
    exact ((endsFilled_of_mem_markedLines hplain hrow).append_left ['>', ' ']).trimEndBy_eq _
      fun _ hc => hc
  rw [quoteText, if_neg hinner]
  simp only
  rw [hlines, List.map_append, List.map_append, hrows,
    Text.joinWith_around _ (markedLines_ne_nil hne)]
  refine ⟨by simpa using h.single, _, _, rfl, atLineStart_flatMap _, head?_flatMap _, ?_⟩
  cases top with
  | true =>
      rw [hnil.mpr htop]
      rfl
  | false =>
      cases above with
      | nil =>
          rcases htop with ⟨c, hc, _⟩
          rw [hnil.mp rfl] at hc
          exact absurd hc List.not_mem_nil
      | cons line above =>
          -- The line above the list has the mark in it.
          refine ⟨'>', List.mem_append_left _ (List.mem_append_left _ ?_), by decide⟩
          exact Text.mem_trimEnd_of_filled (by decide) List.mem_cons_self

omit hne hplain

/-- A semantic element leaves the margins as they are. An article is what it holds, and any other
    element has a line above that. -/
theorem Shows.semantic {inner : List Char} (h : Shows ordered texts lead margin top inner)
    (hinner : inner ≠ []) (element : String) :
    Shows ordered texts lead margin (top && element == "article") (semanticText element inner) := by
  rw [semanticText, if_neg (mt List.isEmpty_iff.mp hinner)]
  by_cases harticle : element = "article"
  · rw [if_pos harticle, harticle, beq_self_eq_true, Bool.and_true]
    exact h
  · rw [if_neg harticle, beq_eq_false_iff_ne.mpr harticle, Bool.and_false]
    split
    · refine h.framed (.of_getLast? rfl) ⟨'-', List.mem_cons_self, by decide⟩ fun c hc => ?_
      exact (Option.some.inj hc).symm
    · have hfront : AtLineStart ("<!-- ".toList ++ element.toList ++ " -->\n".toList) :=
        .of_getLast? (List.getLast?_append_of_ne_nil _ (by decide))
      have hback : ∀ c ∈ ("\n<!-- /".toList ++ element.toList ++ " -->".toList).head?, c = '\n' :=
        fun c hc => (Option.some.inj hc).symm
      have hframed := h.framed hfront ⟨'<', List.mem_cons_self, by decide⟩ hback
      simpa only [List.append_assoc] using hframed

end

/-- What an item has in front of its contents. -/
def itemStart (indent : Int) (ordered : Bool) (number : Nat) : List Char :=
  List.replicate (2 * indent.toNat) ' ' ++ itemMarker ordered number ++ [' ']

/-- An item that shows is what begins it, and its text. -/
theorem itemLine_eq_append (indent : Int) (ordered : Bool) (number : Nat) {inner : List Char}
    (hinner : inner ≠ []) :
    itemLine indent ordered number inner = itemStart indent ordered number ++ inner := by
  unfold itemLine itemStart itemMarker
  simp only
  rw [if_neg (mt List.isEmpty_iff.mp hinner), List.append_assoc _ [' '], List.singleton_append]

theorem lineEnd_not_mem_itemStart (indent : Int) (ordered : Bool) (number : Nat) :
    '\n' ∉ itemStart indent ordered number := by
  intro h
  rcases List.mem_append.mp h with h | h
  · rcases List.mem_append.mp h with h | h
    · exact absurd (List.eq_of_mem_replicate h) (by decide)
    · exact lineEnd_not_mem_itemMarker ordered number h
  · exact absurd h (by decide)

section

variable {ordered : Bool} {texts : List String} {lead margin : List Char} {top : Bool}

/-- An item has its marker in front of the first line of what it holds. -/
theorem Shows.item (hne : texts ≠ []) {inner : List Char}
    (h : Shows ordered texts lead margin top inner) (hinner : inner ≠ [])
    (indent : Int) (counted : Bool) (number : Nat) :
    Shows ordered texts (if top then itemStart indent counted number ++ lead else lead) margin top
      (itemLine indent counted number inner) := by
  rw [itemLine_eq_append indent counted number hinner]
  rcases h.place with ⟨above, below, rfl, habove, hbelow, htop⟩
  have hstart := lineEnd_not_mem_itemStart indent counted number
  -- At the top of the item the first line follows the marker. Otherwise the marker belongs to what
  -- is above.
  cases top with
  | true =>
      rw [if_pos rfl] at htop ⊢
      refine ⟨⟨?_, h.single.2⟩, [], below, ?_, nofun, hbelow, rfl⟩
      · exact fun hmem => (List.mem_append.mp hmem).elim hstart h.single.1
      · rw [htop, joinWith_markedLines ordered lead margin hne]
        simp only [List.append_assoc, List.nil_append]
  | false =>
      rw [if_neg Bool.false_ne_true] at htop ⊢
      rcases htop with ⟨c, hc, hfalse⟩
      refine ⟨h.single, itemStart indent counted number ++ above, below, ?_, ?_, hbelow, c,
        List.mem_append_right _ hc, hfalse⟩
      · simp only [List.append_assoc]
      · intro d hd
        rw [List.getLast?_append_of_ne_nil _ (List.ne_nil_of_mem hc)] at hd
        exact habove d hd

end

end Markdown

end PageDistill
