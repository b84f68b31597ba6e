import PageDistill.Proofs.Markdown.Attachment
import PageDistill.Proofs.Markdown.FrontMatterLines
import PageDistill.Proofs.Text.Trimmed

/-!
# The Lines of Nested Lists

A list of short items with lists in them is written with one line for each item.

An item that holds a text and a list is rendered as a whole and trimmed before its marker is put in
front. So what stands at its front is the marker of the item, and the lines of the inner list come
behind a line end, where trimming does not reach them: they keep the indentation that they were
written with, which is that of their own level and was never relative to the item. The induction
has the level as a parameter for this reason. The other end of an item is never blank either, since
it is the end of a text: nothing is trimmed from there but the line end that every block gets.

Only the text of an item could go wrong. It would be cut if it began or ended in blank, and taken
for more than one line if it held a line end, and without any text the marker would stand alone.

## Main definitions

* `PlainLine`: A text that fills a line of its own.
* `Node.IsListTree`: A list whose items hold a text and at most one list of the same kind.
* `ListEntry`: An item with the level that it stands at and its number.
* `Node.entries`: The items of a list and of those in it, as they follow one another.
* `ListEntry.written`: The line of an item.

## Theorems

* `Node.block_listTree`: A list tree is written as the lines of its items.
* `Node.splitOn_written`: Cutting the text gives the lines back.
* `renderPage_listTree`: The page of a list tree.
-/

namespace PageDistill

namespace Markdown

/-- A text that fills a line of its own: not empty, without blank at its ends, and without a line
    end. -/
structure PlainLine (text : String) : Prop where
  filled : text.toList ≠ []
  trimmed : Text.Trimmed text.toList
  single : '\n' ∉ text.toList

instance (text : String) : Decidable (PlainLine text) :=
  decidable_of_iff
    (text.toList ≠ [] ∧ Text.trim text.toList = text.toList ∧ '\n' ∉ text.toList)
    ⟨fun h => ⟨h.1, Text.trimmed_iff.mpr h.2.1, h.2.2⟩,
      fun h => ⟨h.filled, Text.trimmed_iff.mp h.trimmed, h.single⟩⟩

mutual

/-- A list with items of which each holds a text, and behind it a list of the same kind or
    nothing. -/
def Node.IsListTree : Node → Prop
  | .list _ items => items ≠ [] ∧ AreListItems items
  | _ => False

/-- All of some items hold a text and at most one list tree. -/
def AreListItems : List (List Node) → Prop
  | [] => True
  | item :: items => IsListItem item ∧ AreListItems items

/-- An item holds a text and at most one list tree. -/
def IsListItem : List Node → Prop
  | [.text text] => PlainLine text
  | [.text text, inner] => PlainLine text ∧ inner.IsListTree
  | _ => False

end

/-- An item of a list: the number of lists around its own, its number if these are counted, and its
    text. -/
structure ListEntry where
  level : Nat
  number : Option Nat
  text : String
  deriving DecidableEq, Repr

/-- The marker of an item: its number with a dot, or a dash. -/
def ListEntry.marker (e : ListEntry) : List Char :=
  match e.number with
  | some n => Number.naturalText n ++ ['.']
  | none => ['-']

/-- The line of an item: two spaces for each level, the marker, a space, and the text. -/
def ListEntry.written (e : ListEntry) : List Char :=
  List.replicate (2 * e.level) ' ' ++ e.marker ++ ' ' :: e.text.toList

mutual

/-- The items of a list that stands at a level, each followed by those of the list in it. -/
def Node.entries (level : Nat) : Node → List ListEntry
  | .list ordered items => entriesOfItems level ordered 1 items
  | _ => []

/-- The same for items, which are counted from a number on. -/
def entriesOfItems (level : Nat) (ordered : Bool) (number : Nat) :
    List (List Node) → List ListEntry
  | [] => []
  | item :: items =>
    entriesOfItem level (if ordered then some number else none) item ++
      entriesOfItems level ordered (number + 1) items

/-- An item with a number, followed by those of the list in it. -/
def entriesOfItem (level : Nat) (number : Option Nat) : List Node → List ListEntry
  | [.text text] => [⟨level, number, text⟩]
  | [.text text, inner] => ⟨level, number, text⟩ :: inner.entries (level + 1)
  | _ => []

end

/-- The text of some items: their lines. -/
def writtenEntries (entries : List ListEntry) : List Char :=
  Text.joinWith ['\n'] (entries.map ListEntry.written)

theorem writtenEntries_append (before after : List ListEntry) (hbefore : before ≠ [])
    (hafter : after ≠ []) :
    writtenEntries (before ++ after) =
      writtenEntries before ++ '\n' :: writtenEntries after := by
  cases before with
  | nil => exact absurd rfl hbefore
  | cons e before =>
      cases after with
      | nil => exact absurd rfl hafter
      | cons f after =>
          unfold writtenEntries
          rw [List.map_append, List.map_cons, List.map_cons, joinWith_append]
          simp only [List.append_assoc, List.cons_append, List.nil_append]

/-- Each item of a list tree has a line. -/
theorem entriesOfItem_ne_nil (level : Nat) (number : Option Nat) (item : List Node)
    (h : IsListItem item) : entriesOfItem level number item ≠ [] := by
  match item, h with
  | [.text text], _ => exact List.cons_ne_nil _ _
  | [.text text, inner], _ => exact List.cons_ne_nil _ _

theorem entriesOfItems_ne_nil (level : Nat) (ordered : Bool) (number : Nat)
    (items : List (List Node)) (hne : items ≠ []) (h : AreListItems items) :
    entriesOfItems level ordered number items ≠ [] := by
  cases items with
  | nil => exact absurd rfl hne
  | cons item items =>
      intro hnil
      rw [entriesOfItems, List.append_eq_nil_iff] at hnil
      exact entriesOfItem_ne_nil level _ item h.1 hnil.1

/-- A list has an entry at least. -/
theorem Node.entries_ne_nil (level : Nat) (node : Node) (h : node.IsListTree) :
    node.entries level ≠ [] := by
  cases node with
  | list ordered items => exact entriesOfItems_ne_nil level ordered 1 items h.1 h.2
  | _ => exact h.elim

mutual

/-- The texts of the items fill their lines. -/
theorem Node.plainLine_of_mem_entries (level : Nat) (node : Node) (h : node.IsListTree) :
    ∀ e ∈ node.entries level, PlainLine e.text := by
  cases node with
  | list ordered items => exact plainLine_of_mem_items level ordered 1 items h.2
  | _ => exact h.elim

theorem plainLine_of_mem_items (level : Nat) (ordered : Bool) (number : Nat)
    (items : List (List Node)) (h : AreListItems items) :
    ∀ e ∈ entriesOfItems level ordered number items, PlainLine e.text := by
  cases items with
  | nil => exact fun e he => absurd he List.not_mem_nil
  | cons item items =>
      intro e he
      rcases List.mem_append.mp he with hitem | hitems
      · exact plainLine_of_mem_item level _ item h.1 e hitem
      · exact plainLine_of_mem_items level ordered _ items h.2 e hitems

/-- The entries of an item are plain lines. -/
theorem plainLine_of_mem_item (level : Nat) (number : Option Nat) (item : List Node)
    (h : IsListItem item) : ∀ e ∈ entriesOfItem level number item, PlainLine e.text := by
  match item, h with
  | [.text text], h =>
      intro e he
      rw [List.mem_singleton.mp he]
      exact h
  | [.text text, inner], h =>
      intro e he
      rcases List.mem_cons.mp he with rfl | hinner
      · exact h.1
      · exact Node.plainLine_of_mem_entries (level + 1) inner h.2 e hinner

end

/-- A line of an item ends as its text does. -/
theorem ListEntry.endsFilled_written (e : ListEntry) (h : PlainLine e.text) :
    Text.EndsFilled e.written := by
  have htext := Text.endsFilled_of_trimmed h.filled h.trimmed
  exact (htext.cons ' ').append_left _

/-- So does the text of a list tree. -/
theorem Node.endsFilled_written (level : Nat) (node : Node) (h : node.IsListTree) :
    Text.EndsFilled (writtenEntries (node.entries level)) := by
  have hne := node.entries_ne_nil level h
  refine Text.EndsFilled.joinWith _ (by simpa using hne) fun line hline => ?_
  rcases List.mem_map.mp hline with ⟨e, he, rfl⟩
  exact e.endsFilled_written (node.plainLine_of_mem_entries level h e he)

/-- A list tree is a block, not a section, and nothing follows it in its item. -/
theorem place_listTree (node : Node) (h : node.IsListTree) (out written : List Char) :
    place node [] out written = appendBlock false false out written := by
  cases node with
  | list ordered items => rfl
  | _ => exact h.elim

theorem trimLineEnds_eq {s : List Char} (h : Text.EndsFilled s) : trimLineEnds s = s := by
  refine h.trimEndBy_eq _ fun c hc => ?_
  rw [beq_iff_eq.mp hc]
  decide

/-- What a text and a list tree behind it are trimmed to: both stay as they are. -/
theorem trim_layOut_nested (indent : Int) (text : String) (inner : Node) (htext : PlainLine text)
    (hinner : inner.IsListTree) (hends : Text.EndsFilled (inner.block indent)) :
    Text.trim (layOut indent [] [.text text, inner]) =
      text.toList ++ '\n' :: inner.block indent := by
  have hlast : text.toList.getLast? ≠ some '\n' := by
    intro hlast
    exact htext.single (List.mem_of_getLast? hlast)
  -- The text leaves its line open, so the list below begins a new one.
  have hopen : openLine false text.toList = text.toList ++ ['\n'] := by
    rw [openLine, if_neg (by simpa using htext.filled), if_neg Bool.false_ne_true, if_neg hlast]
  have hrest : Text.EndsFilled (text.toList ++ '\n' :: inner.block indent) :=
    (hends.cons '\n').append_left text.toList
  have hlaid : layOut indent [] [.text text, inner] =
      text.toList ++ '\n' :: inner.block indent ++ ['\n'] := by
    change place inner [] text.toList (inner.block indent) = _
    rw [place_listTree inner hinner, appendBlock, if_neg (by simpa using hends.ne_nil), hopen,
      List.append_assoc, List.singleton_append, trimLineEnds_eq hrest]
    rfl
  have hfront : ∀ c ∈ (text.toList ++ '\n' :: inner.block indent ++ ['\n']).head?,
      Text.isBlank c = false := by
    rw [List.append_assoc, List.head?_append_of_ne_nil _ htext.filled]
    exact htext.trimmed.1
  rw [hlaid, Text.trim_eq_trimEnd hfront, Text.trimEnd_append_of_blank _ _ (by decide)]
  exact hrest.trimEndBy_eq _ fun _ hc => hc

/-- The line of an item is its entry, and what follows. -/
theorem itemLine_eq (level : Nat) (ordered : Bool) (number : Nat) (text : String)
    (rest : List Char) (h : text.toList ≠ []) :
    itemLine level ordered number (text.toList ++ rest) =
      (ListEntry.mk level (if ordered then some number else none) text).written ++ rest := by
  have hne : (text.toList ++ rest).isEmpty = false := by
    rw [List.isEmpty_eq_false_iff]
    exact fun hnil => h (List.append_eq_nil_iff.mp hnil).1
  rw [itemLine, hne, if_neg Bool.false_ne_true, Int.toNat_natCast]
  unfold ListEntry.written ListEntry.marker
  cases ordered with
  | true => simp only [if_true, List.append_assoc, List.cons_append]
  | false => simp only [Bool.false_eq_true, if_false, List.append_assoc, List.cons_append]

mutual

/-- A list tree is written as the lines of its items, at every level. -/
theorem Node.block_listTree (level : Nat) (node : Node) (h : node.IsListTree) :
    node.block level = writtenEntries (node.entries level) := by
  cases node with
  | list ordered items =>
      rw [Node.block, Node.entries]
      exact joinWith_itemLines level ordered 1 items h.2
  | _ => exact h.elim

/-- The lines of a list are its entries. -/
theorem joinWith_itemLines (level : Nat) (ordered : Bool) (number : Nat)
    (items : List (List Node)) (h : AreListItems items) :
    Text.joinWith ['\n'] (itemLines level ordered number items) =
      writtenEntries (entriesOfItems level ordered number items) := by
  cases items with
  | nil => rfl
  | cons item items =>
      have hitem := itemLine_listItem level ordered number item h.1
      have hitems := joinWith_itemLines level ordered (number + 1) items h.2
      rw [itemLines, entriesOfItems, hitem]
      cases items with
      | nil =>
          rw [itemLines, entriesOfItems, List.append_nil]
          rfl
      | cons next others =>
          rw [writtenEntries_append _ _ (entriesOfItem_ne_nil level _ item h.1)
            (entriesOfItems_ne_nil level ordered _ _ (List.cons_ne_nil _ _) h.2), ← hitems,
            itemLines, Text.joinWith_cons_cons, List.append_assoc, List.singleton_append]

/-- Those of an item are its own entry and the entries of the lists in it. -/
theorem itemLine_listItem (level : Nat) (ordered : Bool) (number : Nat) (item : List Node)
    (h : IsListItem item) :
    itemLine level ordered number (Text.trim (layOut (level + 1) [] item)) =
      writtenEntries (entriesOfItem level (if ordered then some number else none) item) := by
  match item, h with
  | [.text text], h =>
      have hlaid : layOut (level + 1) [] [.text text] = text.toList := rfl
      have hline := itemLine_eq level ordered number text [] h.filled
      rw [List.append_nil, List.append_nil] at hline
      rw [hlaid, Text.trim_of_trimmed h.trimmed, hline]
      rfl
  | [.text text, inner], h =>
      have hblock := Node.block_listTree (level + 1) inner h.2
      rw [Int.natCast_succ] at hblock
      have hends := Node.endsFilled_written (level + 1) inner h.2
      rw [← hblock] at hends
      -- The lines of the list below follow the line of the text.
      have hlines := writtenEntries_append
        [⟨level, if ordered then some number else none, text⟩] (inner.entries (level + 1))
        (List.cons_ne_nil _ _) (inner.entries_ne_nil (level + 1) h.2)
      rw [List.singleton_append] at hlines
      rw [trim_layOut_nested (level + 1) text inner h.1 h.2 hends,
        itemLine_eq level ordered number text _ h.1.filled, hblock, entriesOfItem, hlines]
      rfl

end

mutual

/-- A list tree holds no metadata. -/
theorem Node.metadataIn_listTree (node : Node) (h : node.IsListTree) :
    metadataIn [node] = [] := by
  cases node with
  | list ordered items =>
      rw [metadataIn_singleton _ rfl]
      exact metadataIn_flatten items (metadataIn_listItems items h.2)
  | _ => exact h.elim

theorem metadataIn_listItems (items : List (List Node)) (h : AreListItems items) :
    ∀ item ∈ items, metadataIn item = [] := by
  cases items with
  | nil => exact fun item hitem => absurd hitem List.not_mem_nil
  | cons first items =>
      intro item hitem
      rcases List.mem_cons.mp hitem with hfirst | hrest
      · rw [hfirst]
        exact metadataIn_listItem first h.1
      · exact metadataIn_listItems items h.2 item hrest

theorem metadataIn_listItem (item : List Node) (h : IsListItem item) : metadataIn item = [] := by
  match item, h with
  | [.text text], _ => rfl
  | [.text text, inner], h =>
      rw [metadataIn_cons, Node.metadataIn_listTree inner h.2]
      rfl

end

/-- The line of an item holds no line end. -/
theorem ListEntry.lineEnd_not_mem_written (e : ListEntry) (h : PlainLine e.text) :
    '\n' ∉ e.written := by
  have hmarker : '\n' ∉ e.marker := by
    unfold ListEntry.marker
    cases e.number with
    | none => decide
    | some n =>
        simp only [List.mem_append, List.mem_singleton, not_or]
        exact ⟨Number.not_mem_naturalText n (by decide), by decide⟩
  unfold ListEntry.written
  rw [List.mem_append, List.mem_append, List.mem_cons, not_or, not_or, not_or]
  refine ⟨⟨fun hspace => ?_, hmarker⟩, by decide, h.single⟩
  exact absurd (List.eq_of_mem_replicate hspace) (by decide)

/-- Cutting the text of a list tree gives the lines of its items. -/
theorem Node.splitOn_written (level : Nat) (node : Node) (h : node.IsListTree) :
    Text.splitOn '\n' (writtenEntries (node.entries level)) =
      (node.entries level).map ListEntry.written := by
  refine Text.splitOn_joinWith '\n' _ (by simpa using node.entries_ne_nil level h) ?_
  intro line hline
  rcases List.mem_map.mp hline with ⟨e, he, rfl⟩
  exact e.lineEnd_not_mem_written (node.plainLine_of_mem_entries level h e he)

/-- The page of a list tree: the front matter of a page without metadata, which is empty unless it
    is wanted, and the lines of the items. -/
theorem renderPage_listTree {o : Options} (ho : o.WithoutNodeHooks) (level : Nat) (node : Node)
    (h : node.IsListTree) :
    renderPage o level [node] =
      .ok (frontMatter o.metadata [] ++ writtenEntries (node.entries level)) := by
  have hfront : frontMatter o.metadata [node] = frontMatter o.metadata [] := by
    refine frontMatter_congr o.metadata ?_
    rw [metadataOf_eq, node.metadataIn_listTree h]
    rfl
  have hends := node.endsFilled_written level h
  have hlaid : layOut level [] [node] = writtenEntries (node.entries level) ++ ['\n'] := by
    change place node [] [] (node.block level) = _
    rw [place_listTree node h, node.block_listTree level h, appendBlock,
      if_neg (by simpa using hends.ne_nil)]
    change trimLineEnds ([] ++ writtenEntries (node.entries level)) ++ ['\n'] = _
    rw [List.nil_append, trimLineEnds_eq hends]
  rw [renderPage_unhooked ho, hfront, hlaid, ← List.append_assoc,
    Text.trimEnd_append_of_blank _ _ (by decide), Text.trimEnd,
    (hends.append_left _).trimEndBy_eq _ fun _ hc => hc]

end Markdown

end PageDistill
