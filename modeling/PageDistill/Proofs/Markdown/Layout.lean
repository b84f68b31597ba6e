import PageDistill.Proofs.Markdown.Blocks

/-!
# Where Nodes Stand

Where each node of a list stands in what is written for the list.

Nodes are written one after another, but not only at the end of what is there: a block may take away
line ends before it puts its own, and a section always makes a blank line of those in front of it.
So it has to be shown of everything that is written that it is still there in the end. `Grown` lists
what can become of a text. Whatever that is, a text that ends inside a line stays, and so do two
line ends below it (`Grown.still_there`), and no more than two are needed for a block.

Inline texts may end in line ends of their own, and more of them. A section that comes after these
takes them away. This is the one way in which a text can change after it was written, and
`prefix_layOut_or_cut` says that there is no other.

A place is told by the text above it. `LaidOut` collects what is known of the places of blocks and
of inline texts, for the nodes of a list by their numbers.

## Main definitions

* `lead`, `lineEnds`: What is put above a node and below it.
* `layFront`, `textAbove`: What is there when some nodes are written, and above the next one.
* `Grown`: What may become of a text.
* `joint`: What stands between two inline texts.
* `LaidOut`: Where nodes stand.

## Theorems

* `place_cases`: How a node is put after what is there.
* `Grown.still_there`: What stays when more is written.
* `grown_layOut`: Writing nodes is growing.
* `prefix_layOut_or_cut`: A text stays as it is, or a section takes line ends from it.
* `layOut_laidOut`, `renderContent_laidOut`: The places of nodes in what is written for them.
-/

namespace PageDistill

namespace Markdown

/-- A block is no inline node. -/
theorem Node.isInline_of_isBlock {node : Node} (h : node.isBlock = true) :
    node.isInline = false := by
  cases node with
  | code content language inline => cases inline <;> first | rfl | exact absurd h Bool.false_ne_true
  | _ => first | rfl | exact absurd h Bool.false_ne_true

/-- What stands above a node when it is written: what is there, with the space or the line ends that
    part it from the node. -/
def lead (node : Node) (out written : List Char) : List Char :=
  if node.isInline then (if needsSpace out written then out ++ [' '] else out)
  else openLine node.isSection out

/-- The line ends below a block. -/
def lineEnds (node : Node) (rest : List Node) : List Char :=
  if isApart node rest then ['\n', '\n'] else ['\n']

/-- There is one line end below a block at least, and two at most. -/
theorem lineEnds_bounds (node : Node) (rest : List Node) :
    ['\n'] <+: lineEnds node rest ∧ lineEnds node rest <+: ['\n', '\n'] := by
  unfold lineEnds
  split <;> decide

/-- An inline node is put behind its lead. -/
theorem place_of_inline {node : Node} (h : node.isInline = true) (rest : List Node)
    (out written : List Char) : place node rest out written = lead node out written ++ written := by
  rw [place, lead, if_pos h, if_pos h, appendInline]
  split
  · rw [List.append_assoc, List.singleton_append]
  · rfl

/-- A block stands between its lead and its line ends. -/
theorem place_of_solid {node : Node} (h : node.isBlock = true) (rest : List Node)
    (out : List Char) {written : List Char} (hsolid : Solid written) :
    place node rest out written = lead node out written ++ written ++ lineEnds node rest := by
  have hinline : ¬ node.isInline = true := Bool.eq_false_iff.mp (Node.isInline_of_isBlock h)
  have hempty : ¬ written.isEmpty = true := mt List.isEmpty_iff.mp hsolid.filled
  rw [place, lead, if_neg hinline, if_neg hinline, if_pos h, appendBlock, if_neg hempty]
  refine congrArg (· ++ _) (Text.trimEndBy_eq_self ?_)
  rw [List.getLast?_append_of_ne_nil _ hsolid.filled]
  exact hsolid.ends.2

/-- A node that is written as nothing leaves no trace. -/
theorem place_of_nil (node : Node) (rest : List Node) (out : List Char) :
    place node rest out [] = out := by
  have hspace : needsSpace out [] = false := by
    unfold needsSpace
    cases out.getLast? <;> rfl
  unfold place
  split
  · rw [appendInline, hspace, if_neg Bool.false_ne_true, List.append_nil]
  · split
    · exact appendBlock_nil _ _ out
    · rfl

/-- How a node is put after what is there: it leaves no trace, or it stands there as it is by
    itself, as an inline text or as a block with its line ends. -/
theorem place_cases (node : Node) (rest : List Node) (out : List Char) (indent : Int) :
    (node.block indent = [] ∧ place node rest out (node.block indent) = out) ∨
      (node.isInline = true ∧ node.block indent ≠ [] ∧
        place node rest out (node.block indent) =
          lead node out (node.block indent) ++ node.block indent) ∨
      (node.isBlock = true ∧ Solid (node.block indent) ∧
        place node rest out (node.block indent) =
          lead node out (node.block indent) ++ node.block indent ++ lineEnds node rest) := by
  by_cases hnil : node.block indent = []
  · rw [hnil]
    exact Or.inl ⟨rfl, place_of_nil node rest out⟩
  · by_cases hinline : node.isInline = true
    · exact Or.inr (Or.inl ⟨hinline, hnil, place_of_inline hinline rest out _⟩)
    · by_cases hblock : node.isBlock = true
      · have hsolid := node.solid_block indent hblock hnil
        exact Or.inr (Or.inr ⟨hblock, hsolid, place_of_solid hblock rest out hsolid⟩)
      · exact absurd (Node.block_eq_nil indent hinline hblock) hnil

/-- What stands there after the first nodes of a list, when others are still to come. -/
def layFront (indent : Int) (back : List Node) (out : List Char) : List Node → List Char
  | [] => out
  | node :: front =>
    layFront indent back (place node (front ++ back) out (node.block indent)) front

theorem layFront_append (indent : Int) (back : List Node) (out : List Char)
    (first then' : List Node) :
    layFront indent back out (first ++ then') =
      layFront indent back (layFront indent (then' ++ back) out first) then' := by
  induction first generalizing out with
  | nil => rfl
  | cons node first ih => rw [List.cons_append, layFront, layFront, ih, List.append_assoc]

/-- A list of nodes is laid out in two parts. -/
theorem layOut_append (indent : Int) (out : List Char) (front back : List Node) :
    layOut indent out (front ++ back) = layOut indent (layFront indent back out front) back := by
  induction front generalizing out with
  | nil => rfl
  | cons node front ih => rw [List.cons_append, layOut, layFront, ih]

/-- What may have become of a text once more is written: more was put after it, or the line ends at
    its end became a blank line, any number of times. -/
inductive Grown (out : List Char) : List Char → Prop where
  | refl : Grown out out
  | append {later : List Char} (h : Grown out later) (more : List Char) : Grown out (later ++ more)
  | cut {later : List Char} (h : Grown out later) : Grown out (trimLineEnds later ++ ['\n', '\n'])

namespace Grown

variable {out later last : List Char}

theorem trans (h : Grown out later) (h' : Grown later last) : Grown out last := by
  induction h' with
  | refl => exact h
  | append _ more ih => exact ih.append more
  | cut _ ih => exact ih.cut

/-- A text is still there if what it ends in is no line end, and so are two line ends after it. -/
theorem still_there {s ends : List Char} (hs : ∀ c ∈ s.getLast?, (c == '\n') = false)
    (hends : ends <+: ['\n', '\n']) (h : Grown (s ++ ends) later) : s ++ ends <+: later := by
  induction h with
  | refl => exact List.prefix_refl _
  | append _ more ih => exact ih.trans (List.prefix_append _ more)
  | cut _ ih =>
      -- A cut takes line ends only, so it stops at the text.
      rcases ih with ⟨more, rfl⟩
      by_cases hall : ∀ c ∈ ends ++ more, (c == '\n') = true
      · -- All that was written after the text are line ends: two of them are put back.
        rw [List.append_assoc, trimLineEnds, Text.trimEndBy_append_of_all s hall,
          Text.trimEndBy_eq_self hs]
        exact (List.prefix_append_right_inj s).mpr hends
      · have hsome : ∃ c ∈ more, (c == '\n') = false := by
          push Not at hall
          rcases hall with ⟨c, hc, hne⟩
          refine ⟨c, ?_, Bool.eq_false_iff.mpr hne⟩
          rcases List.mem_append.mp hc with hmem | hmem
          · have hend : c = '\n' := by simpa using hends.subset hmem
            exact absurd (beq_iff_eq.mpr hend) hne
          · exact hmem
        rw [trimLineEnds, Text.trimEndBy_append_of_exists (s ++ ends) hsome, List.append_assoc]
        exact List.prefix_append _ _

end Grown

/-- A lead only adds. -/
theorem grown_lead (node : Node) (out written : List Char) : Grown out (lead node out written) := by
  unfold lead
  split
  · split
    · exact Grown.refl.append [' ']
    · exact .refl
  · unfold openLine
    split
    · rename_i hempty
      rw [List.isEmpty_iff.mp hempty]
      exact .refl
    · split
      · exact Grown.refl.cut
      · split
        · exact .refl
        · exact Grown.refl.append ['\n']

/-- So does a node that is placed. -/
theorem grown_place (node : Node) (rest : List Node) (out : List Char) (indent : Int) :
    Grown out (place node rest out (node.block indent)) := by
  have hlead := grown_lead node out (node.block indent)
  rcases place_cases node rest out indent with ⟨_, heq⟩ | ⟨_, _, heq⟩ | ⟨_, _, heq⟩
  · rw [heq]
    exact .refl
  · rw [heq]
    exact hlead.append _
  · rw [heq]
    exact (hlead.append _).append _

/-- Laying out nodes lets a text grow, and each node is a step of that. -/
theorem grown_layOut (indent : Int) (out : List Char) (nodes : List Node) :
    Grown out (layOut indent out nodes) := by
  induction nodes generalizing out with
  | nil => exact .refl
  | cons node rest ih => exact (grown_place node rest out indent).trans (ih _)

/-- And so does a list of nodes. -/
theorem grown_layFront (indent : Int) (back : List Node) (out : List Char) (front : List Node) :
    Grown out (layFront indent back out front) := by
  induction front generalizing out with
  | nil => exact .refl
  | cons node front ih => exact (grown_place node (front ++ back) out indent).trans (ih _)

/-- What a text is followed by does not touch it, if that is not all line ends. -/
theorem Grown.prefix_of_exists {out more later : List Char}
    (hmore : ∃ c ∈ more, (c == '\n') = false) (h : Grown (out ++ more) later) : out <+: later := by
  rcases Text.trimEndBy_prefix (fun c => c == '\n') more with ⟨ends, hends⟩
  have hgrown : Grown (out ++ trimLineEnds more) later := by
    refine Grown.trans ?_ h
    have hrefl : Grown (out ++ trimLineEnds more) (out ++ trimLineEnds more) := .refl
    have happend := hrefl.append ends
    rwa [List.append_assoc, trimLineEnds, hends] at happend
  have hlast : ∀ c ∈ (out ++ trimLineEnds more).getLast?, (c == '\n') = false := by
    rw [trimLineEnds, ← Text.trimEndBy_append_of_exists out hmore]
    exact Text.getLast?_trimEndBy _ _
  have hthere := Grown.still_there hlast (List.nil_prefix (l := ['\n', '\n']))
    (by rwa [List.append_nil])
  rw [List.append_nil] at hthere
  exact (List.prefix_append out _).trans hthere

/-- A text at the start of a line: empty, or with a line end as its last character. -/
def AtLineStart (s : List Char) : Prop := ∀ c ∈ s.getLast?, c = '\n'

theorem atLineStart_openLine (isSection : Bool) (out : List Char) :
    AtLineStart (openLine isSection out) := by
  unfold openLine
  split
  · exact nofun
  · split
    · intro c hc
      rw [List.getLast?_append_of_ne_nil _ (List.cons_ne_nil _ _)] at hc
      exact (Option.some.inj hc).symm
    · split
      · rename_i hlast
        intro c hc
        rw [hlast] at hc
        exact (Option.some.inj hc).symm
      · intro c hc
        rw [List.getLast?_append_of_ne_nil _ (List.cons_ne_nil _ _)] at hc
        exact (Option.some.inj hc).symm

/-- After a blank line a block needs no more line ends. -/
theorem openLine_of_blank_line (isSection : Bool) {s : List Char}
    (hs : ∀ c ∈ s.getLast?, (c == '\n') = false) :
    openLine isSection (s ++ ['\n', '\n']) = s ++ ['\n', '\n'] := by
  have hne : ¬ (s ++ ['\n', '\n']).isEmpty = true := by simp
  rw [openLine, if_neg hne]
  split
  · have hall : ∀ c ∈ ['\n', '\n'], (c == '\n') = true := fun c hc => by simpa using hc
    rw [trimLineEnds, Text.trimEndBy_append_of_all s hall, Text.trimEndBy_eq_self hs]
  · have hlast : (s ++ ['\n', '\n']).getLast? = some '\n' :=
      List.getLast?_append_of_ne_nil _ (List.cons_ne_nil _ _)
    rw [if_pos hlast]

/-- What stands between two inline texts: a space, unless the first ends in blank or in an opening
    bracket, or the second begins with blank or is a single mark of punctuation. -/
def joint (s t : List Char) : List Char :=
  if (s.getLast?.any fun c => Text.isBlank c || opensBracket c) || t.head?.any Text.isBlank ||
      (t.length == 1 && t.all clingsToWord) then []
  else [' ']

theorem joint_concat_cons (front : List Char) (last first : Char) (others : List Char) :
    joint (front ++ [last]) (first :: others) =
      if (Text.isBlank last || opensBracket last) || Text.isBlank first ||
        (others.isEmpty && clingsToWord first) then [] else [' '] := by
  have hsingle : ((first :: others).length == 1 && (first :: others).all clingsToWord) =
      (others.isEmpty && clingsToWord first) := by
    cases others with
    | nil =>
        rw [List.all_cons, List.all_nil, Bool.and_true]
        generalize clingsToWord first = clings
        rfl
    | cons _ _ => simp
  unfold joint
  rw [hsingle]
  simp only [List.getLast?_concat, Option.any_some, List.head?_cons]

theorem needsSpace_concat_cons (front : List Char) (last first : Char) (others : List Char) :
    needsSpace (front ++ [last]) (first :: others) =
      !((Text.isBlank last || opensBracket last) || Text.isBlank first ||
        (others.isEmpty && clingsToWord first)) := by
  unfold needsSpace
  simp only [List.getLast?_concat]
  generalize Text.isBlank last = blank, Text.isBlank first = blank', opensBracket last = opens,
    (others.isEmpty && clingsToWord first) = clings
  revert blank blank' opens clings
  decide

/-- An inline text is parted from the one before it by their joint. -/
theorem lead_of_inline {node : Node} (h : node.isInline = true) (front : List Char)
    {s t : List Char} (hs : s ≠ []) (ht : t ≠ []) :
    lead node (front ++ s) t = front ++ s ++ joint s t := by
  rcases List.exists_cons_of_ne_nil ht with ⟨first, others, rfl⟩
  rcases List.eq_nil_or_concat s with rfl | ⟨before, last, rfl⟩
  · exact absurd rfl hs
  · rw [List.concat_eq_append, lead, if_pos h, ← List.append_assoc, needsSpace_concat_cons,
      joint_concat_cons]
    generalize ((Text.isBlank last || opensBracket last) || Text.isBlank first ||
      (others.isEmpty && clingsToWord first)) = crowded
    cases crowded with
    | false => rfl
    | true => exact (List.append_nil _).symm

/-- Nodes for which nothing is written change nothing. -/
theorem layFront_of_nil (indent : Int) (back : List Node) (out : List Char) (nodes : List Node)
    (h : ∀ node ∈ nodes, node.block indent = []) : layFront indent back out nodes = out := by
  induction nodes with
  | nil => rfl
  | cons node rest ih =>
      rw [layFront, h node List.mem_cons_self, place_of_nil]
      exact ih fun other hmem => h other (List.mem_cons_of_mem node hmem)

/-- A block for which something is written. -/
def Node.ShowsBlock (indent : Int) (node : Node) : Prop :=
  node.isBlock = true ∧ node.block indent ≠ []

/-- An inline node for which something is written. -/
def Node.ShowsInline (indent : Int) (node : Node) : Prop :=
  node.isInline = true ∧ node.block indent ≠ []

/-- What stands above the node of a number once nodes are laid out. -/
def textAbove (indent : Int) (nodes : List Node) (number : Nat) : List Char :=
  match nodes.drop number with
  | [] => []
  | node :: back =>
    lead node (layFront indent (node :: back) [] (nodes.take number)) (node.block indent)

/-- What stands above a node is what was laid out before it, and its lead. -/
theorem textAbove_eq (indent : Int) (front : List Node) (node : Node) (back : List Node) :
    textAbove indent (front ++ node :: back) front.length =
      lead node (layFront indent (node :: back) [] front) (node.block indent) := by
  unfold textAbove
  rw [List.drop_left, List.take_left]

/-- What stands above a node that comes after another one. -/
theorem textAbove_eq_after (indent : Int) (front : List Node) (a : Node) (mid : List Node)
    (b : Node) (back : List Node) :
    textAbove indent (front ++ a :: (mid ++ b :: back)) (front.length + mid.length + 1) =
      lead b (layFront indent (b :: back)
        (place a (mid ++ b :: back) (layFront indent (a :: (mid ++ b :: back)) [] front)
          (a.block indent)) mid) (b.block indent) := by
  have hsplit : front ++ a :: (mid ++ b :: back) = (front ++ a :: mid) ++ b :: back := by simp
  have hlength : front.length + mid.length + 1 = (front ++ a :: mid).length := by
    rw [List.length_append, List.length_cons, Nat.add_assoc]
  rw [hsplit, hlength, textAbove_eq, layFront_append, layFront, List.cons_append]

/-- Where nodes stand in a text. The texts above them are given by their numbers, and say where each
    of them begins. -/
structure LaidOut (indent : Int) (nodes : List Node) (out : List Char) (above : Nat → List Char) :
    Prop where
  /-- A block stands on lines of its own. -/
  lines : ∀ front node back, nodes = front ++ node :: back → node.ShowsBlock indent →
    AtLineStart (above front.length) ∧ above front.length ++ node.block indent ++ ['\n'] <+: out
  /-- A blank line follows a heading, and a block in front of another block. -/
  apart : ∀ front node back, nodes = front ++ node :: back → node.ShowsBlock indent →
    node.isHeading = true ∨ (∃ next ∈ back.head?, next.isBlock = true) →
    above front.length ++ node.block indent ++ ['\n', '\n'] <+: out
  /-- A block ends before a later one begins. -/
  ordered : ∀ front a mid b back, nodes = front ++ a :: (mid ++ b :: back) →
    a.ShowsBlock indent → b.ShowsBlock indent →
    above front.length ++ a.block indent ++ ['\n'] <+: above (front.length + mid.length + 1)
  /-- One blank line parts blocks with nothing but empty blocks between them. -/
  parted : ∀ front a mid b back, nodes = front ++ a :: (mid ++ b :: back) →
    a.ShowsBlock indent → b.ShowsBlock indent →
    (∀ node ∈ mid, node.isBlock = true ∧ node.block indent = []) →
    above (front.length + mid.length + 1) = above front.length ++ a.block indent ++ ['\n', '\n']
  /-- The blank line is one, since blocks have no line ends at their ends. -/
  solid : ∀ node ∈ nodes, node.ShowsBlock indent → Solid (node.block indent)
  /-- Inline texts are parted by their joint. -/
  joined : ∀ front a mid b back, nodes = front ++ a :: (mid ++ b :: back) →
    a.ShowsInline indent → b.ShowsInline indent → (∀ node ∈ mid, node.block indent = []) →
    above (front.length + mid.length + 1) =
      above front.length ++ a.block indent ++ joint (a.block indent) (b.block indent)
  /-- An inline text stands there, or a section comes after it with nothing but line ends between
      them, and the line ends in front of the section have become a blank line. -/
  stands : ∀ front a back, nodes = front ++ a :: back → a.ShowsInline indent →
    above front.length ++ a.block indent <+: out ∨
      ∃ mid b rest, back = mid ++ b :: rest ∧ b.ShowsBlock indent ∧ b.isSection = true ∧
        (∀ node ∈ mid, ∀ c ∈ node.block indent, c = '\n') ∧
        above (front.length + mid.length + 1) =
          trimLineEnds (above front.length ++ a.block indent) ++ ['\n', '\n']

section

variable {indent : Int}

theorem Node.ShowsBlock.place_eq {node : Node} (h : node.ShowsBlock indent) (rest : List Node)
    (out : List Char) :
    place node rest out (node.block indent) =
      lead node out (node.block indent) ++ node.block indent ++ lineEnds node rest :=
  place_of_solid h.1 rest out (node.solid_block indent h.1 h.2)

/-- The last character above the line ends of a block is that of the block. -/
theorem Node.ShowsBlock.last {node : Node} (h : node.ShowsBlock indent) (above : List Char) :
    ∀ c ∈ (above ++ node.block indent).getLast?, (c == '\n') = false := by
  rw [List.getLast?_append_of_ne_nil _ h.2]
  exact (node.solid_block indent h.1 h.2).ends.2

/-- A block that shows begins on a line of its own. -/
theorem Node.ShowsBlock.lead_eq {node : Node} (h : node.ShowsBlock indent) (out : List Char) :
    lead node out (node.block indent) = openLine node.isSection out := by
  rw [lead, if_neg (Bool.eq_false_iff.mp (Node.isInline_of_isBlock h.1))]

/-- A block is still there with a line end below it, and with both if it is kept apart. -/
theorem Node.ShowsBlock.still_there {node : Node} (h : node.ShowsBlock indent)
    {above ends : List Char} {rest : List Node} (hends : ends <+: lineEnds node rest)
    {later : List Char} (hgrown : Grown (above ++ node.block indent ++ lineEnds node rest) later) :
    above ++ node.block indent ++ ends <+: later := by
  refine Grown.still_there (h.last above) (hends.trans (lineEnds_bounds node rest).2)
    (Grown.trans ?_ hgrown)
  rcases hends with ⟨more, hmore⟩
  rw [← hmore, ← List.append_assoc]
  exact Grown.refl.append more

/-- An empty line follows a heading, and a block before another one. -/
theorem lineEnds_eq_two {node : Node} {rest : List Node}
    (h : node.isHeading = true ∨ ∃ next ∈ rest.head?, next.isBlock = true) :
    lineEnds node rest = ['\n', '\n'] := by
  have hapart : isApart node rest = true := by
    rcases h with hheading | ⟨next, hnext, hblock⟩
    · unfold isApart
      rw [hheading, Bool.true_or]
    · cases rest with
      | nil => exact absurd hnext nofun
      | cons other others =>
          rw [← Option.some.inj hnext] at hblock
          simp only [isApart, hblock, Bool.or_true]
  rw [lineEnds, if_pos hapart]

/-- What is written for a node leaves the text above it alone, unless the node is a section. -/
theorem prefix_lead_or_cut (node : Node) (out written : List Char) :
    out <+: lead node out written ∨ node.isSection = true ∧
      lead node out written = trimLineEnds out ++ ['\n', '\n'] := by
  unfold lead
  -- Only a section trims what stands above. Anything else adds to it.
  split
  · split
    · exact Or.inl (List.prefix_append out _)
    · exact Or.inl (List.prefix_refl out)
  · unfold openLine
    split
    · rename_i hempty
      rw [List.isEmpty_iff.mp hempty]
      exact Or.inl (List.prefix_refl _)
    · split
      · rename_i hsection
        exact Or.inr ⟨hsection, rfl⟩
      · split
        · exact Or.inl (List.prefix_refl out)
        · exact Or.inl (List.prefix_append out _)

/-- Line ends are put after what is there as they are. -/
theorem place_of_lineEnds (node : Node) (rest : List Node) (out : List Char)
    (h : ∀ c ∈ node.block indent, c = '\n') :
    place node rest out (node.block indent) = out ++ node.block indent := by
  rcases place_cases node rest out indent with ⟨hnil, heq⟩ | ⟨hinline, hne, heq⟩ | ⟨_, hsolid, _⟩
  · rw [heq, hnil, List.append_nil]
  · rcases List.exists_cons_of_ne_nil hne with ⟨first, others, hwritten⟩
    have hfirst : Text.isBlank first = true := by
      rw [h first (hwritten ▸ List.mem_cons_self)]
      decide
    have hspace : needsSpace out (first :: others) = false := by
      unfold needsSpace
      cases out.getLast? with
      | none => rfl
      | some last => simp [hfirst]
    rw [heq, lead, if_pos hinline, hwritten, hspace, if_neg Bool.false_ne_true]
  · have hlast := h _ (List.getLast_mem hsolid.filled)
    exact absurd (hlast ▸ List.getLast?_eq_some_getLast hsolid.filled) hsolid.getLast?_ne

/-- What is written for a node that has more than line ends stands below its lead. -/
theorem place_of_exists (node : Node) (rest : List Node) (out : List Char)
    (h : ∃ c ∈ node.block indent, (c == '\n') = false) :
    ∃ tail, place node rest out (node.block indent) =
      lead node out (node.block indent) ++ (node.block indent ++ tail) := by
  rcases place_cases node rest out indent with ⟨hnil, _⟩ | ⟨_, _, heq⟩ | ⟨_, _, heq⟩
  · rcases h with ⟨c, hc, _⟩
    rw [hnil] at hc
    exact absurd hc List.not_mem_nil
  · exact ⟨[], by rw [heq, List.append_nil]⟩
  · exact ⟨lineEnds node rest, by rw [heq, List.append_assoc]⟩

theorem Node.isBlock_of_isSection {node : Node} (h : node.isSection = true) :
    node.isBlock = true := by
  cases node with
  | semantic element content => rfl
  | _ => exact absurd h Bool.false_ne_true

/-- A text that is written to is still there in the end, or a section has changed the line ends at
    the end of it. The induction is on the nodes, and goes on as long as nothing but line ends is
    written for them. -/
theorem prefix_layOut_or_cut (out : List Char) (nodes : List Node) :
    out <+: layOut indent out nodes ∨
      ∃ mid b rest, nodes = mid ++ b :: rest ∧ b.ShowsBlock indent ∧ b.isSection = true ∧
        (∀ node ∈ mid, ∀ c ∈ node.block indent, c = '\n') ∧
        lead b (layFront indent (b :: rest) out mid) (b.block indent) =
          trimLineEnds out ++ ['\n', '\n'] := by
  induction nodes generalizing out with
  | nil => exact Or.inl (List.prefix_refl out)
  | cons node nodes ih =>
      by_cases hends : ∀ c ∈ node.block indent, c = '\n'
      -- A node of line ends alone adds to them, and the next node decides.
      · have hplace := place_of_lineEnds node nodes out hends
        have htrim : trimLineEnds (out ++ node.block indent) = trimLineEnds out :=
          Text.trimEndBy_append_of_all out fun c hc => beq_iff_eq.mpr (hends c hc)
        rw [layOut, hplace]
        rcases ih (out ++ node.block indent) with
          hprefix | ⟨mid, b, rest, rfl, hb, hsection, hmid, hlead⟩
        · exact Or.inl ((List.prefix_append out _).trans hprefix)
        · refine Or.inr ⟨node :: mid, b, rest, rfl, hb, hsection,
            List.forall_mem_cons.mpr ⟨hends, hmid⟩, ?_⟩
          rw [layFront, hplace, hlead, htrim]
      · have hsome : ∃ c ∈ node.block indent, (c == '\n') = false := by
          push Not at hends
          simpa using hends
        rcases place_of_exists node nodes out hsome with ⟨tail, hplace⟩
        rcases prefix_lead_or_cut node out (node.block indent) with
          ⟨between, hlead⟩ | ⟨hsection, hlead⟩
        · rcases hsome with ⟨c, hc, hne⟩
          -- Something that is no line end follows, and no later cut goes past it.
          have hmore : ∃ c ∈ between ++ (node.block indent ++ tail), (c == '\n') = false :=
            ⟨c, List.mem_append_right _ (List.mem_append_left _ hc), hne⟩
          refine Or.inl (Grown.prefix_of_exists hmore ?_)
          rw [layOut, hplace, ← hlead, List.append_assoc]
          exact grown_layOut _ _ _
        · refine Or.inr ⟨[], node, nodes, rfl, ⟨Node.isBlock_of_isSection hsection, fun hnil => ?_⟩,
            hsection, nofun, hlead⟩
          rcases hsome with ⟨c, hc, _⟩
          rw [hnil] at hc
          exact List.not_mem_nil hc

/-- The places of nodes in what is written for them. -/
theorem layOut_laidOut (nodes : List Node) :
    LaidOut indent nodes (layOut indent [] nodes) (textAbove indent nodes) where
  lines := by
    rintro front node back rfl h
    rw [textAbove_eq, layOut_append, layOut, h.place_eq]
    refine ⟨?_, h.still_there (lineEnds_bounds node back).1 (grown_layOut _ _ _)⟩
    rw [h.lead_eq]
    exact atLineStart_openLine _ _
  apart := by
    rintro front node back rfl h hnext
    have htwo : ['\n', '\n'] <+: lineEnds node back := by
      simp only [lineEnds_eq_two hnext, List.prefix_refl]
    rw [textAbove_eq, layOut_append, layOut, h.place_eq]
    exact h.still_there htwo (grown_layOut _ _ _)
  ordered := by
    rintro front a mid b back rfl ha hb
    rw [textAbove_eq, textAbove_eq_after, ha.place_eq]
    exact ha.still_there (lineEnds_bounds a _).1
      ((grown_layFront _ _ _ _).trans (grown_lead _ _ _))
  parted := by
    rintro front a mid b back rfl ha hb hmid
    -- Whatever is between the two, a block comes next, so two line ends are left.
    have hnext : ∃ next ∈ (mid ++ b :: back).head?, next.isBlock = true := by
      cases mid with
      | nil => exact ⟨b, rfl, hb.1⟩
      | cons node _ => exact ⟨node, rfl, (hmid node List.mem_cons_self).1⟩
    rw [textAbove_eq, textAbove_eq_after, ha.place_eq,
      layFront_of_nil _ _ _ mid fun node hnode => (hmid node hnode).2,
      lineEnds_eq_two (Or.inr hnext), hb.lead_eq,
      openLine_of_blank_line _ (ha.last _)]
  solid := fun node _ h => node.solid_block indent h.1 h.2
  joined := by
    rintro front a mid b back rfl ha hb hmid
    rw [textAbove_eq, textAbove_eq_after, place_of_inline ha.1, layFront_of_nil _ _ _ mid hmid,
      lead_of_inline hb.1 _ ha.2 hb.2]
  stands := by
    rintro front a back rfl h
    rw [textAbove_eq, layOut_append, layOut, place_of_inline h.1]
    rcases prefix_layOut_or_cut _ back with hprefix | ⟨mid, b, rest, rfl, hb, hsection, hmid, hlead⟩
    · exact Or.inl hprefix
    · refine Or.inr ⟨mid, b, rest, rfl, hb, hsection, hmid, ?_⟩
      rw [textAbove_eq_after, place_of_inline h.1]
      exact hlead

end

/-- Without hooks the nodes of a list stand in what is written for the list, each as it is written
    by itself. -/
theorem renderContent_laidOut (o : Options) (ho : o.WithoutNodeHooks) (indent : Int)
    (nodes : List Node) :
    ∃ out above, renderContent o indent nodes = .ok out ∧
      (∀ node ∈ nodes, node.body o indent = .ok (node.block indent)) ∧
      LaidOut indent nodes out above :=
  ⟨layOut indent [] nodes, textAbove indent nodes, renderNodes_unhooked ho indent [] nodes,
    fun node _ => Node.body_unhooked ho indent node, layOut_laidOut nodes⟩

/-- A heading, an image that is left out, a list, inline texts with and without a space between
    them, and a section that takes line ends from the last of them. -/
theorem renderContent_laidOut_mixed :
    let nodes : List Node :=
      [.heading 1 [.text "A"], .image "" (some "left out"), .list false [[.text "b"]],
        .text "c", .emphasis .bold [.text "d"], .text "!", .text "\n\n\n",
        .semantic "section" [.text "e"]]
    Options.default.WithoutNodeHooks ∧
      renderContent Options.default 0 nodes =
        .ok "# A\n\n- b\nc **d**!\n\n---\n\ne\n\n---\n".toList ∧
      ∃ above, LaidOut 0 nodes "# A\n\n- b\nc **d**!\n\n---\n\ne\n\n---\n".toList above := by
  intro nodes
  have hhooks : Options.default.WithoutNodeHooks := ⟨rfl, rfl⟩
  have hwritten : renderContent Options.default 0 nodes =
      .ok "# A\n\n- b\nc **d**!\n\n---\n\ne\n\n---\n".toList := rfl
  rcases renderContent_laidOut Options.default hhooks 0 nodes with ⟨out, above, hout, _, hplaces⟩
  rw [hwritten] at hout
  exact ⟨hhooks, hwritten, above, Except.ok.inj hout ▸ hplaces⟩

/-- Two texts of line ends are joined by nothing, but a section takes them away, so that they do not
    stand there one after the other. -/
theorem renderContent_line_ends_cut :
    let ends : Node := .text "\n\n"
    let nodes : List Node := [.text "a", ends, ends, .semantic "section" [.text "c"]]
    joint (ends.block 0) (ends.block 0) = [] ∧
      renderContent Options.default 0 nodes = .ok "a\n\n---\n\nc\n\n---\n".toList ∧
      ¬ ends.block 0 ++ ends.block 0 <:+: "a\n\n---\n\nc\n\n---\n".toList := by
  intro ends nodes
  exact ⟨by decide +kernel, rfl, by decide +kernel⟩

end Markdown

end PageDistill
