import PageDistill.Proofs.Markdown.NestedLists

/-!
# Reading a List Back

What a nested list says, read off its lines.

A line tells the level of its item by the spaces in front, the kind of the list by the marker, and
then the text. Nothing in a line tells where the list in the item ends. So the lines are read from
the last one to the first, and what waits for its item is kept in groups, one for each level that is
still open, the deepest in front. An item takes the group of the level below its own, if there is
one, for the list in it. The item itself goes in front of the others of its level, or opens a group.

Reading the lines of a list leaves one group more than there were before. This needs that the groups
before are all of higher lists, so that no item of the list takes what belongs to another one.

## Main definitions

* `readEntry`: The item that a line tells.
* `ListGroup`: The items of a list of which only the last ones are read yet.
* `pushEntry`: What reading an item does with the groups.
* `readListTree`: The list that a text tells.

## Theorems

* `readEntry_written`: The line of an item is read back.
* `Node.foldr_pushEntry`: The items of a list tree are put together to it again.
* `readListTree_written`: A list tree is read back.
* `renderPage_readListTree`: A rendered list tree has a line for each item and is read back, so no
  other list tree is rendered to the same text.
-/

namespace PageDistill

namespace Markdown

/-- The number and the text of an item, read from behind its indentation: a dash, or digits and a
    dot, then a space, then the text. -/
def readMarked : List Char → Option (Option Nat × List Char)
  | '-' :: ' ' :: text => some (none, text)
  | marked =>
    match marked.dropWhile Char.isDigit with
    | '.' :: ' ' :: text =>
      some (some (Nat.ofDigitChars 10 (marked.takeWhile Char.isDigit) 0), text)
    | _ => none

/-- The item that a line tells. -/
def readEntry (line : List Char) : Option ListEntry :=
  (readMarked (line.dropWhile (· == ' '))).map fun marked =>
    ⟨(line.takeWhile (· == ' ')).length / 2, marked.1, String.ofList marked.2⟩

/-- The items of a list of which only the last ones are read yet. -/
structure ListGroup where
  level : Nat
  ordered : Bool
  items : List (List Node)

/-- The list of a group. -/
def ListGroup.list (g : ListGroup) : Node := .list g.ordered g.items

/-- The list in an item of a level, if there is one, and the groups without it. -/
def takeNested (level : Nat) : List ListGroup → List Node × List ListGroup
  | [] => ([], [])
  | g :: groups => if g.level = level + 1 then ([g.list], groups) else ([], g :: groups)

/-- An item in front of the others of its level, or in a group of its own. -/
def addItem (level : Nat) (ordered : Bool) (item : List Node) : List ListGroup → List ListGroup
  | [] => [⟨level, ordered, [item]⟩]
  | g :: groups =>
    if g.level = level then ⟨level, ordered, item :: g.items⟩ :: groups
    else ⟨level, ordered, [item]⟩ :: g :: groups

/-- What reading an item does with the groups: it takes the list in it, and then goes in front of
    the items behind it. -/
def pushEntry (e : ListEntry) (groups : List ListGroup) : List ListGroup :=
  let (nested, others) := takeNested e.level groups
  addItem e.level e.number.isSome (.text e.text :: nested) others

/-- The list of the only group. -/
def onlyList : List ListGroup → Option Node
  | [g] => some g.list
  | _ => none

/-- The list that a text tells. -/
def readListTree (text : List Char) : Option Node := do
  let entries ← (Text.splitOn '\n' text).mapM readEntry
  onlyList (entries.foldr pushEntry [])

theorem naturalText_eq_cons (n : Nat) :
    ∃ c rest, Number.naturalText n = c :: rest ∧ c.isDigit = true := by
  cases h : Number.naturalText n with
  | nil => exact absurd h (Number.naturalText_ne_nil n)
  | cons c rest =>
      have hmem : c ∈ Number.naturalText n := by
        rw [h]
        exact List.mem_cons_self
      exact ⟨c, rest, rfl, Number.isDigit_of_mem_naturalText hmem⟩

/-- What is behind the indentation of an item does not begin with a space. -/
theorem ListEntry.marker_eq_cons (e : ListEntry) :
    ∃ c rest, e.marker = c :: rest ∧ (c == ' ') = false := by
  unfold ListEntry.marker
  cases e.number with
  | none => exact ⟨'-', [], rfl, by decide⟩
  | some n =>
      rcases naturalText_eq_cons n with ⟨c, rest, hcons, hdigit⟩
      refine ⟨c, rest ++ ['.'], ?_, ?_⟩
      · simp only [hcons, List.cons_append]
      · rw [beq_eq_false_iff_ne]
        rintro rfl
        exact absurd hdigit (by decide)

/-- A marker is read as its number, with the text behind it. -/
theorem readMarked_marker (e : ListEntry) (text : List Char) :
    readMarked (e.marker ++ ' ' :: text) = some (e.number, text) := by
  unfold ListEntry.marker
  cases e.number with
  | none => rfl
  | some n =>
      have hdigits : ∀ c ∈ Number.naturalText n, c.isDigit = true := fun c hc =>
        Number.isDigit_of_mem_naturalText hc
      -- A number is not taken for a dash.
      have hdash : ∀ rest, Number.naturalText n ++ ['.'] ++ ' ' :: text ≠ '-' :: ' ' :: rest := by
        intro rest heq
        rcases naturalText_eq_cons n with ⟨c, others, hcons, hdigit⟩
        rw [hcons] at heq
        rw [(List.cons.inj heq).1] at hdigit
        exact absurd hdigit (by decide)
      rw [readMarked.eq_2 _ hdash, List.append_assoc,
        List.dropWhile_append_of_pos hdigits, List.takeWhile_append_of_pos hdigits]
      change some (some (Nat.ofDigitChars 10 (Number.naturalText n ++ []) 0), text) = _
      rw [List.append_nil, Number.ofDigitChars_naturalText]

/-- The line of an item is read back. -/
theorem readEntry_written (e : ListEntry) : readEntry e.written = some e := by
  have hspaces : ∀ c ∈ List.replicate (2 * e.level) ' ', (c == ' ') = true := by
    intro c hc
    rw [List.eq_of_mem_replicate hc]
    rfl
  rcases e.marker_eq_cons with ⟨c, rest, hmarker, hc⟩
  have hdrop : e.written.dropWhile (· == ' ') = e.marker ++ ' ' :: e.text.toList := by
    rw [ListEntry.written, List.append_assoc, List.dropWhile_append_of_pos hspaces, hmarker,
      List.cons_append, List.dropWhile_cons_of_neg (by simpa using hc)]
  have htake : e.written.takeWhile (· == ' ') = List.replicate (2 * e.level) ' ' := by
    rw [ListEntry.written, List.append_assoc, List.takeWhile_append_of_pos hspaces, hmarker,
      List.cons_append, List.takeWhile_cons_of_neg (by simpa using hc), List.append_nil]
  rw [readEntry, hdrop, htake, readMarked_marker, List.length_replicate,
    Nat.mul_div_cancel_left _ (by omega), Option.map_some, String.ofList_toList]

/-- The written lines are read as their entries. -/
theorem mapM_readEntry (entries : List ListEntry) :
    (entries.map ListEntry.written).mapM readEntry = some entries := by
  induction entries with
  | nil => rfl
  | cons e entries ih =>
      rw [List.map_cons, List.mapM_cons, readEntry_written, ih]
      rfl

/-- No item takes a group that is not of the level below its own. -/
theorem takeNested_of_le (level : Nat) (groups : List ListGroup)
    (h : ∀ g ∈ groups.head?, g.level ≤ level) : takeNested level groups = ([], groups) := by
  cases groups with
  | nil => rfl
  | cons g groups =>
      have hg := h g rfl
      rw [takeNested, if_neg (by omega)]

/-- The group of a deeper level is taken as a nested list. -/
theorem takeNested_cons (level : Nat) (ordered : Bool) (items : List (List Node))
    (groups : List ListGroup) :
    takeNested level (⟨level + 1, ordered, items⟩ :: groups) = ([.list ordered items], groups) := by
  rw [takeNested, if_pos rfl]
  rfl

theorem addItem_of_lt (level : Nat) (ordered : Bool) (item : List Node) (groups : List ListGroup)
    (h : ∀ g ∈ groups.head?, g.level < level) :
    addItem level ordered item groups = ⟨level, ordered, [item]⟩ :: groups := by
  cases groups with
  | nil => rfl
  | cons g groups =>
      have hg := h g rfl
      rw [addItem, if_neg (by omega)]

/-- An item is put before those of its level. -/
theorem addItem_cons (level : Nat) (ordered : Bool) (item : List Node) (items : List (List Node))
    (groups : List ListGroup) :
    addItem level ordered item (⟨level, ordered, items⟩ :: groups) =
      ⟨level, ordered, item :: items⟩ :: groups := by
  rw [addItem, if_pos rfl]

mutual

/-- The items of a list tree are put together to it again, in a group in front of those of higher
    lists. -/
theorem Node.foldr_pushEntry (level : Nat) (node : Node) (groups : List ListGroup)
    (h : node.IsListTree) (hgroups : ∀ g ∈ groups.head?, g.level < level) :
    ∃ ordered items, node = .list ordered items ∧
      (node.entries level).foldr pushEntry groups = ⟨level, ordered, items⟩ :: groups := by
  cases node with
  | list ordered items =>
      exact ⟨ordered, items, rfl,
        foldr_pushEntry_items level ordered 1 items groups h.1 h.2 hgroups⟩
  | _ => exact h.elim

/-- The entries of items make one list at their level. -/
theorem foldr_pushEntry_items (level : Nat) (ordered : Bool) (number : Nat)
    (items : List (List Node)) (groups : List ListGroup) (hne : items ≠ [])
    (h : AreListItems items) (hgroups : ∀ g ∈ groups.head?, g.level < level) :
    (entriesOfItems level ordered number items).foldr pushEntry groups =
      ⟨level, ordered, items⟩ :: groups := by
  cases items with
  | nil => exact absurd rfl hne
  | cons item items =>
      have hordered : (if ordered then some number else none).isSome = ordered := by
        cases ordered <;> rfl
      rw [entriesOfItems, List.foldr_append]
      cases items with
      | nil =>
          rw [entriesOfItems, List.foldr_nil,
            foldr_pushEntry_item level _ item groups h.1 fun g hg => Nat.le_of_lt (hgroups g hg),
            hordered, addItem_of_lt level ordered item groups hgroups]
      | cons next others =>
          -- The later items have been read into the group already, so this one joins it.
          rw [foldr_pushEntry_items level ordered (number + 1) (next :: others) groups
              (List.cons_ne_nil _ _) h.2 hgroups,
            foldr_pushEntry_item level _ item _ h.1, hordered, addItem_cons]
          exact fun g hg => Nat.le_of_eq (congrArg ListGroup.level (Option.some.inj hg)).symm

/-- The list in an item is of a level that no group before it has. -/
theorem foldr_pushEntry_item (level : Nat) (number : Option Nat) (item : List Node)
    (groups : List ListGroup) (h : IsListItem item)
    (hgroups : ∀ g ∈ groups.head?, g.level ≤ level) :
    (entriesOfItem level number item).foldr pushEntry groups =
      addItem level number.isSome item groups := by
  match item, h with
  | [.text text], _ =>
      rw [entriesOfItem, List.foldr_cons, List.foldr_nil, pushEntry,
        takeNested_of_le level groups hgroups]
  | [.text text, inner], h =>
      rcases Node.foldr_pushEntry (level + 1) inner groups h.2 fun g hg =>
        Nat.lt_succ_of_le (hgroups g hg) with ⟨ordered, items, rfl, hinner⟩
      rw [entriesOfItem, List.foldr_cons, hinner, pushEntry, takeNested_cons]

end

/-- A list tree is read back, whatever the level it was written at. -/
theorem readListTree_written (level : Nat) (node : Node) (h : node.IsListTree) :
    readListTree (writtenEntries (node.entries level)) = some node := by
  have hgroups : ∀ g ∈ ([] : List ListGroup).head?, g.level < level :=
    fun g hg => absurd hg (Option.not_mem_none g)
  rcases node.foldr_pushEntry level [] h hgroups with ⟨ordered, items, hnode, hgroup⟩
  rw [readListTree, node.splitOn_written level h, mapM_readEntry]
  change onlyList ((node.entries level).foldr pushEntry []) = some node
  rw [hgroup, hnode]
  rfl

/-- A list tree that is rendered without hooks has one line for each item, in the order of the
    document, with two spaces for each level, the marker and the text. The tree is read back from
    these lines, at whatever level they were written, and no other list tree gives the same
    page. -/
theorem renderPage_readListTree {o : Options} (ho : o.WithoutNodeHooks) (level : Nat)
    (node : Node) (h : node.IsListTree) :
    ∃ text, renderPage o level [node] = .ok (frontMatter o.metadata [] ++ text) ∧
      Text.splitOn '\n' text = (node.entries level).map ListEntry.written ∧
      readListTree text = some node ∧
      ∀ (otherLevel : Nat) (other : Node), other.IsListTree →
        renderPage o otherLevel [other] = renderPage o level [node] → other = node := by
  refine ⟨_, renderPage_listTree ho level node h, node.splitOn_written level h,
    readListTree_written level node h, fun otherLevel other hother hpage => ?_⟩
  rw [renderPage_listTree ho level node h, renderPage_listTree ho otherLevel other hother] at hpage
  have htext := List.append_cancel_left (Except.ok.inj hpage)
  have hread := readListTree_written otherLevel other hother
  rw [htext, readListTree_written level node h] at hread
  exact (Option.some.inj hread).symm

/-- Texts that look like markers are not taken for them, as a marker is only read once for a
    line. -/
theorem renderPage_readListTree_steps :
    let steps : Node := .list true [[.text "one"],
      [.text "2. two", .list false [[.text "- a", .list true [[.text "b"]]], [.text "c"]]],
      [.text "three"]]
    steps.IsListTree ∧
      ∃ text, renderPage Options.default 0 [steps] = .ok text ∧
        Text.splitOn '\n' text = ["1. one", "2. 2. two", "  - - a", "    1. b", "  - c",
          "3. three"].map String.toList ∧
        readListTree text = some steps := by
  intro steps
  have hooks : Options.default.WithoutNodeHooks := ⟨rfl, rfl⟩
  have hsteps : steps.IsListTree := by
    simp only [steps, Node.IsListTree, AreListItems, IsListItem, ne_eq, reduceCtorEq,
      not_false_eq_true, true_and, and_true]
    and_intros <;> decide
  rcases renderPage_readListTree hooks 0 steps hsteps with ⟨text, hpage, hsplit, hread, _⟩
  exact ⟨hsteps, text, hpage, hsplit.trans (by simp only [steps]; rfl), hread⟩

end Markdown

end PageDistill
