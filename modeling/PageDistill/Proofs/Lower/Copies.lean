import PageDistill.Proofs.Dom.Tally
import PageDistill.Proofs.Lower.Rules
import PageDistill.Proofs.Lower.Separators

/-!
# How Often a Text Comes Up

No text of a page comes up in a tree more often than its place lets it.

Most rules take the text of an element once. A table takes all rows below it, not only its own,
and each row takes all cells below it, so a text in a table comes up once for each row and cell
that stand around it, one below the other; and from that cell on it may go through further tables.
`copies` counts these ways, by the names around a text. It is one for a text that has at most one
row and one cell around it, so only tables in tables repeat anything (`copies_eq_one`).

The bound is on characters. For any test, the visible characters of the tree that it accepts,
escapes undone and separators left out, are no more than those of the page, each text with its
number of copies (`lower_copies`). The proof is the induction on levels. What is due for the
children of an element is due for the element (`copies_le_cons`), and what is due for the cells of
a table, row by row, is what its texts come to through rows and cells (`sum_due_cells`,
`sum_due_rows`).

The number cannot be taken for one throughout: a table in a cell gives its text three times, in
the outer cell, in the cell itself, and in the row of its own (`lower_copies_nested`).

## Main definitions

* `copies`, `rowCopies`, `cellCopies`: The ways to a text, through tables, rows and cells.
* `due`: What the text of an element comes to, with its copies.
* `Within`: Something holds a text that stays within a limit.

## Theorems

* `copies_le_cons`: More names around a text do not make its copies less.
* `copies_eq_one`: A text that comes up once.
* `exists_texts`: Things within their limits are together within the sum.
* `Made.within`: What a rule makes stays within what is due.
* `lower_copies`: So does all that lowering makes.
* `lower_copies_nested`: A text that comes up three times.
-/

namespace PageDistill

open Dom (seen tally placedTexts)
open Markdown (Node Cell textOf)
open Text (visible)

/-- Whether an element of the name becomes a table. -/
def isTableName (name : String) : Bool := Dom.categoryOf false name == .table

/-- The name of a row. -/
def isRowName (name : String) : Bool := name == "tr"

/-- The names of cells. -/
def isCellName (name : String) : Bool := name == "th" || name == "td"

mutual

/-- How often a text may come up that has elements of some names around it, the outermost first.
    In a table it comes up by its rows, or once if the table is not taken as one. -/
def copies : List String → Nat
  | [] => 1
  | name :: inner => if isTableName name then max 1 (rowCopies inner) else copies inner

/-- How often a text may come up through the rows around it. -/
def rowCopies : List String → Nat
  | [] => 0
  | name :: inner => (if isRowName name then cellCopies inner else 0) + rowCopies inner

/-- How often a text may come up through the cells around it. -/
def cellCopies : List String → Nat
  | [] => 0
  | name :: inner => (if isCellName name then copies inner else 0) + cellCopies inner

end

/-- What the text below an element comes to: the characters that a test accepts, each text with
    its copies. -/
def due (p : Char → Bool) (e : Dom.Element) : Nat := tally p copies (placedTexts [] e.nodes)

/-- A text is held that has no more characters of any kind than a limit says. -/
def Within {α : Type} (holds : List Char → α → Prop) (limit : (Char → Bool) → Nat) (x : α) : Prop :=
  ∃ text, holds text x ∧ ∀ p, seen p text ≤ limit p

theorem Within.mono {α : Type} {holds : List Char → α → Prop} {limit more : (Char → Bool) → Nat}
    {x : α} (h : Within holds limit x) (hle : ∀ p, limit p ≤ more p) : Within holds more x := by
  rcases h with ⟨text, hholds, hlimit⟩
  exact ⟨text, hholds, fun p => Nat.le_trans (hlimit p) (hle p)⟩

/-- Things that each hold a text within a limit hold texts that are together within all the
    limits. -/
theorem exists_texts {α β : Type} {holds : List Char → β → Prop}
    {limit : (Char → Bool) → α → Nat} {parts : List α} {things : List β}
    (h : List.Forall₂ (fun a b => Within holds (fun p => limit p a) b) parts things) :
    ∃ texts, List.Forall₂ holds texts things ∧
      ∀ p, seen p texts.flatten ≤ (parts.map (limit p)).sum := by
  induction h with
  | nil => exact ⟨[], List.Forall₂.nil, fun _ => Nat.le_refl _⟩
  | cons hfirst _ ih =>
      rcases hfirst with ⟨text, hholds, hlimit⟩
      rcases ih with ⟨texts, htexts, hrest⟩
      refine ⟨text :: texts, List.Forall₂.cons hholds htexts, fun p => ?_⟩
      rw [List.flatten_cons, Dom.seen_append, List.map_cons, List.sum_cons]
      exact Nat.add_le_add (hlimit p) (hrest p)

section

variable {name : String} {inner : List String}

/-- A name that is no table copies nothing by itself. -/
theorem copies_of_not_table (h : isTableName name = false) :
    copies (name :: inner) = copies inner := by
  rw [copies, h, if_neg Bool.false_ne_true]

/-- A table shows what is in it as often as its rows and cells copy it, and at least once. -/
theorem copies_of_table (h : isTableName name = true) :
    copies (name :: inner) = max 1 (rowCopies inner) := by
  rw [copies, if_pos h]

theorem rowCopies_le_cons (name : String) (inner : List String) :
    rowCopies inner ≤ rowCopies (name :: inner) := by
  rw [rowCopies]
  exact Nat.le_add_left _ _

end

/-- The ways through rows are at least those that go through the tables below. -/
theorem copies_le_max (names : List String) : copies names ≤ max 1 (rowCopies names) := by
  induction names with
  | nil => exact Nat.le_refl _
  | cons name inner ih =>
      have hrows := rowCopies_le_cons name inner
      cases htable : isTableName name with
      | false =>
          rw [copies_of_not_table htable]
          omega
      | true =>
          rw [copies_of_table htable]
          omega

/-- One more name around a text does not make its copies less. -/
theorem copies_le_cons (name : String) (inner : List String) :
    copies inner ≤ copies (name :: inner) := by
  cases htable : isTableName name with
  | false => exact Nat.le_of_eq (copies_of_not_table htable).symm
  | true =>
      rw [copies_of_table htable]
      exact copies_le_max inner

/-- Nothing is shown less than once. -/
theorem one_le_copies (names : List String) : 1 ≤ copies names := by
  induction names with
  | nil => exact Nat.le_refl 1
  | cons name inner ih => exact Nat.le_trans ih (copies_le_cons name inner)

/-- Without a cell around it, a text does not come up through cells, nor through rows. -/
theorem cellCopies_eq_zero {names : List String} (h : names.countP isCellName = 0) :
    cellCopies names = 0 := by
  induction names with
  | nil => rfl
  | cons name inner ih =>
      rw [List.countP_cons] at h
      have hname : ¬ isCellName name = true := fun hcell => by
        rw [if_pos hcell] at h
        omega
      rw [cellCopies, if_neg hname, ih (by omega)]

theorem rowCopies_eq_zero {names : List String}
    (h : names.countP isRowName = 0 ∨ names.countP isCellName = 0) : rowCopies names = 0 := by
  induction names with
  | nil => rfl
  | cons name inner ih =>
      rw [List.countP_cons, List.countP_cons] at h
      rw [rowCopies, ih (by omega)]
      by_cases hrow : isRowName name = true
      · rw [if_pos hrow] at h ⊢
        rw [cellCopies_eq_zero (by omega)]
      · rw [if_neg hrow]

/-- Below one cell there is no other, so nothing is repeated below it. -/
theorem copies_eq_one_of_no_cell {names : List String} (h : names.countP isCellName = 0) :
    copies names = 1 := by
  have hle := copies_le_max names
  have hge := one_le_copies names
  rw [rowCopies_eq_zero (Or.inr h)] at hle
  omega

theorem cellCopies_le_one {names : List String} (h : names.countP isCellName ≤ 1) :
    cellCopies names ≤ 1 := by
  induction names with
  | nil => exact Nat.zero_le 1
  | cons name inner ih =>
      rw [List.countP_cons] at h
      rw [cellCopies]
      by_cases hcell : isCellName name = true
      · rw [if_pos hcell] at h ⊢
        have hown : copies inner = 1 := copies_eq_one_of_no_cell (by omega)
        have hbelow : cellCopies inner = 0 := cellCopies_eq_zero (by omega)
        omega
      · rw [if_neg hcell, Nat.zero_add]
        exact ih (by omega)

/-- With one row and one cell around a text, it is copied at most once. -/
theorem rowCopies_le_one {names : List String} (hrow : names.countP isRowName ≤ 1)
    (hcell : names.countP isCellName ≤ 1) : rowCopies names ≤ 1 := by
  induction names with
  | nil => exact Nat.zero_le 1
  | cons name inner ih =>
      rw [List.countP_cons] at hrow hcell
      rw [rowCopies]
      by_cases hname : isRowName name = true
      · rw [if_pos hname] at hrow ⊢
        rw [rowCopies_eq_zero (Or.inl (by omega))]
        exact cellCopies_le_one (by omega)
      · rw [if_neg hname, Nat.zero_add]
        exact ih (by omega) (by omega)

/-- A text with at most one row and one cell around it comes up once. -/
theorem copies_eq_one {names : List String} (hrow : names.countP isRowName ≤ 1)
    (hcell : names.countP isCellName ≤ 1) : copies names = 1 := by
  have hle := copies_le_max names
  have hge := one_le_copies names
  have hrows := rowCopies_le_one hrow hcell
  omega

section

variable (p : Char → Bool) (e : Dom.Element)

/-- The cells of a row, and the rows of a table. -/
theorem sum_due_cells :
    ((cellElements e).map (due p)).sum = tally p cellCopies (placedTexts [] e.nodes) :=
  Dom.sum_tally_elements isCellName copies (by rw [cellCopies]) (fun _ _ => by rw [cellCopies]) p
    e.name e.innerRole e.nodes

/-- What is due to the rows of a table adds up to what is due to the table. -/
theorem sum_due_rows :
    ((e.named "tr").map fun row => tally p cellCopies (placedTexts [] row.nodes)).sum =
      tally p rowCopies (placedTexts [] e.nodes) :=
  Dom.sum_tally_elements isRowName cellCopies (by rw [rowCopies]) (fun _ _ => by rw [rowCopies]) p
    e.name e.innerRole e.nodes

/-- What an element says is within what is due, for every text comes up once at least. -/
theorem seen_text_le_due (h : e.HasNoData) : seen p e.text ≤ due p e := by
  refine Nat.le_trans (Dom.Element.seen_text_le h p) ?_
  rw [← Dom.tally_one p []]
  exact Dom.tally_mono one_le_copies

/-- The children of an element are due within what is due for the element. -/
theorem sum_due_children : (e.children.map (due p)).sum ≤ due p e := by
  unfold due Dom.Element.children
  induction e.nodes with
  | nil => exact Nat.le_refl _
  | cons node nodes ih =>
      rw [placedTexts, Dom.tally_append]
      cases node with
      | text content => exact Nat.le_trans ih (Nat.le_add_left _ _)
      | special kind content => exact Nat.le_trans ih (Nat.le_add_left _ _)
      | element tag children =>
          have hchild : tally p copies (placedTexts [] children) ≤
              tally p copies (placedTexts [tag.name] children) := by
            rw [Dom.tally_placedTexts]
            exact Dom.tally_mono (copies_le_cons tag.name)
          exact Nat.add_le_add hchild ih

end

/-- Whether metadata is wanted does not matter for tables. -/
theorem isTableName_of_category {wanted : Bool} {name : String}
    (h : Dom.categoryOf wanted name = .table) : isTableName name = true := by
  rw [categoryOf_of_headless wanted name fun hwanted hhead => ?_] at h
  · rw [isTableName, h]
    rfl
  · rw [Dom.categoryOf, hhead, hwanted] at h
    exact absurd h (by decide)

namespace Holds

/-- Trees in a row hold texts in a row. -/
theorem flatten {texts : List (List Char)} {parts : List (List Node)}
    (h : List.Forall₂ Holds texts parts) : Holds texts.flatten parts.flatten := by
  induction h with
  | nil => exact Holds.nil rfl
  | cons hfirst _ ih => exact hfirst.append ih

/-- A table with its separator, if it has one, holds what its rows hold. -/
theorem separated {texts : List (List Char)} {rows : List (List Cell)} (header : Bool)
    (colIds : Option (List String)) (h : List.Forall₂ CellsHold texts rows) :
    Holds texts.flatten [.table (PageDistill.separated header rows) colIds] := by
  cases rows with
  | nil => exact Holds.table colIds h (Text.visible_flatten texts)
  | cons first others =>
      cases header with
      | false => exact Holds.table colIds h (Text.visible_flatten texts)
      | true => exact Holds.header colIds h (Text.visible_flatten texts)

end Holds

section

variable {o : Options} {made : Dom.Element → List Node → Prop}
  (hmade : ∀ d nodes, d.HasNoData → made d nodes → Within Holds (fun p => due p d) nodes)

include hmade

/-- Cells show no more than what is due to their elements. -/
theorem MadeCells.within {position : Nat} {elements : List Dom.Element} {cells : List Cell}
    (hdata : ∀ d ∈ elements, d.HasNoData) (h : MadeCells o made position elements cells) :
    Within CellsHold (fun p => (elements.map (due p)).sum) cells := by
  induction h with
  | nil => exact ⟨[], CellsHold.nil, fun _ => Nat.le_refl _⟩
  | plain position cell _ _ ih =>
      rcases List.forall_mem_cons.mp hdata with ⟨hcell, hrest⟩
      rcases ih hrest with ⟨more, hmore, hlimit⟩
      refine ⟨cell.text ++ more, CellsHold.plain _ _ ?_ hmore, fun p => ?_⟩
      -- Escaping is undone, and trimming takes no character that shows.
      · rw [undone, String.toList_ofList, Markdown.unescape_escape, Text.visible_trim]
      · rw [Dom.seen_append]
        exact Nat.add_le_add (seen_text_le_due p cell hcell) (hlimit p)
  | rich position cell content _ hcontent _ ih =>
      rcases List.forall_mem_cons.mp hdata with ⟨hcell, hrest⟩
      rcases ih hrest with ⟨more, hmore, hlimit⟩
      rcases hmade cell content hcell hcontent with ⟨text, htext, hown⟩
      refine ⟨text ++ more, CellsHold.rich _ htext hmore, fun p => ?_⟩
      rw [Dom.seen_append]
      exact Nat.add_le_add (hown p) (hlimit p)

/-- A table shows no more than what is due to its rows. -/
theorem tableOf_within {e : Dom.Element} {rows : List (List Cell)} (hdata : e.HasNoData)
    (h : MadeRows o made e rows) :
    Within Holds (fun p => tally p rowCopies (placedTexts [] e.nodes)) [tableOf o e rows] := by
  have hcells : ∀ row ∈ e.named "tr", ∀ cell ∈ cellElements row, cell.HasNoData := by
    intro row hrow cell hcell
    exact (hdata.descendant (List.mem_filter.mp hrow).1).descendant (List.mem_filter.mp hcell).1
  have hrows : List.Forall₂ (fun row cells =>
      Within CellsHold (fun p => tally p cellCopies (placedTexts [] row.nodes)) cells)
      (e.named "tr") rows := by
    refine ((List.forall₂_and_left _ _).mpr ⟨hcells, h⟩).imp fun row cells hrow => ?_
    exact (hrow.2.within hmade hrow.1).mono fun p => Nat.le_of_eq (sum_due_cells p row)
  rcases exists_texts hrows with ⟨texts, htexts, hlimit⟩
  rcases tableOf_eq o e rows with ⟨colIds, htable⟩
  rw [htable]
  exact ⟨texts.flatten, Holds.separated (hasHeader e) colIds htexts, fun p =>
    Nat.le_trans (hlimit p) (Nat.le_of_eq (sum_due_rows p e))⟩

/-- What a rule makes of an element stays within what the element is due in its place. -/
theorem Made.within {e : Dom.Element} {nodes : List Node} (hdata : e.HasNoData)
    (h : Made o made e nodes) :
    Within Holds (fun p => tally p copies (placedTexts [e.name] e.nodes)) nodes := by
  have hplace : ∀ p, tally p copies (placedTexts [e.name] e.nodes) =
      tally p (fun inner => copies (e.name :: inner)) (placedTexts [] e.nodes) :=
    fun p => Dom.tally_placedTexts p copies e.name e.nodes
  -- The name of the element does not make the copies less.
  have hlow : ∀ {nodes : List Node}, Within Holds (due · e) nodes →
      Within Holds (fun p => tally p copies (placedTexts [e.name] e.nodes)) nodes := by
    refine fun h => h.mono fun p => ?_
    rw [hplace]
    exact Dom.tally_mono (copies_le_cons e.name)
  have hnone : ∀ {nodes : List Node}, Holds [] nodes →
      Within Holds (fun p => tally p copies (placedTexts [e.name] e.nodes)) nodes :=
    fun h => ⟨[], h, fun _ => Nat.zero_le _⟩
  have hwrap : ∀ (node : List Node → Node) {nodes : List Node},
      (∀ {bare full : List Node}, List.Forall₂ Separated bare full →
        Separated (node bare) (node full)) →
      (∀ bare, (node bare).ownText undone = textOf undone bare) → made e nodes →
      Within Holds (fun p => tally p copies (placedTexts [e.name] e.nodes)) [node nodes] := by
    intro node nodes hnode hsame h
    rcases hmade e nodes hdata h with ⟨text, htext, hlimit⟩
    exact hlow ⟨text, htext.wrap node hnode hsame, hlimit⟩
  -- A node for what the element says.
  have hsaid : ∀ node : Node, node.ownText undone = Text.trim e.text →
      Within Holds (fun p => tally p copies (placedTexts [e.name] e.nodes)) [node] := by
    intro node hnode
    refine hlow ⟨e.text, Holds.single node ?_, fun p => seen_text_le_due p e hdata⟩
    rw [hnode, Text.visible_trim]
  cases h with
  | blank | dropped => exact hnone (Holds.nil rfl)
  | heading level _ _ h => exact hwrap (.heading level) (.heading level) (fun _ => rfl) h
  | paragraph _ h =>
      rcases hmade e _ hdata h with ⟨text, htext, hlimit⟩
      refine hlow ⟨text ++ [], htext.append (Holds.single _ (by decide)), fun p => ?_⟩
      rw [List.append_nil]
      exact hlimit p
  | label =>
      refine hsaid _ ?_
      rw [Node.ownText, Markdown.textOf_singleton, Node.ownText, String.toList_ofList]
  | link _ h => exact hwrap (.link _) (.link _) (fun _ => rfl) h
  | image | video | head => exact hnone (Holds.single _ rfl)
  | list _ h =>
      have hitems : List.Forall₂ (fun c item => Within Holds (due · c) item) e.children _ :=
        ((List.forall₂_and_left _ _).mpr ⟨fun c hc => hdata.descendant
          (Dom.Element.mem_descendants_of_mem_children hc), h⟩).imp
          fun c item hitem => hmade c item hitem.1 hitem.2
      rcases exists_texts hitems with ⟨texts, htexts, hlimit⟩
      exact hlow ⟨texts.flatten, Holds.list _ htexts (Text.visible_flatten texts), fun p =>
        Nat.le_trans (hlimit p) (sum_due_children p e)⟩
  | lineBreak => exact hnone (Holds.single _ (by decide))
  | table hcategory h =>
      refine (tableOf_within hmade hdata h).mono fun p => ?_
      rw [hplace]
      refine Dom.tally_mono fun inner => ?_
      rw [copies_of_table (isTableName_of_category hcategory)]
      exact Nat.le_max_right _ _
  | emphasis style _ _ h => exact hwrap (.emphasis style) (.emphasis style) (fun _ => rfl) h
  | code =>
      rcases lowerCode_cases e with hcode | ⟨_, _, _, hcode⟩
      · rw [hcode]
        exact hnone (Holds.nil rfl)
      · rw [hcode]
        refine hsaid _ ?_
        rw [Node.ownText, String.toList_ofList]
  | quote _ h => exact hwrap .quote .quote (fun _ => rfl) h
  | semantic element _ h => exact hwrap (.semantic element) (.semantic element) (fun _ => rfl) h
  | passed _ h => exact hlow (hmade e _ hdata h)

end

section

variable {o : Options}

/-- A flattened element shows no more than is due to it. -/
theorem flattened_within {e : Dom.Element} (hdata : e.HasNoData) :
    Within Holds (due · e) (flattened e) := by
  have hsaid := e.visible_spacedText
  rcases flattened_cases e with hempty | ⟨_, hone⟩
  · rw [hempty]
    exact ⟨[], Holds.nil rfl, fun _ => Nat.zero_le _⟩
  · rw [hone]
    refine ⟨e.text, Holds.single _ ?_, fun p => seen_text_le_due p e hdata⟩
    rw [Node.ownText, String.toList_ofList, hsaid]

theorem textNodes_holds (content : String) : Holds content.toList (textNodes content) := by
  have hvisible := Text.visible_trim content.toList
  unfold textNodes
  by_cases hempty : (Text.trim content.toList).isEmpty = true
  · simp only [if_pos hempty]
    rw [List.isEmpty_iff.mp hempty] at hvisible
    exact Holds.nil hvisible.symm
  · simp only [if_neg hempty]
    refine Holds.single _ ?_
    rw [Node.ownText, String.toList_ofList, hvisible]

section

variable {made : Dom.Element → List Node → Prop}
  (hmade : ∀ d nodes, d.HasNoData → made d nodes → Within Holds (due · d) nodes)
  {e : Dom.Element} (hdata : e.HasNoData)

include hmade hdata

/-- What a child becomes shows no more than its copies. -/
theorem MadeChild.within {child : Dom.Node} (hchild : child ∈ e.nodes) {part : List Node}
    (h : MadeChild o made e child part) :
    Within Holds (fun p => tally p copies (child.placedTexts [])) part := by
  cases h with
  | text content =>
      -- With no name around it, a text comes up once.
      have hdue : ∀ p, tally p copies ((Dom.Node.text content).placedTexts []) =
          seen p content.toList := fun p => by
        rw [Dom.Node.placedTexts, Dom.tally_singleton, copies, Nat.one_mul]
      exact ⟨content.toList, textNodes_holds content, fun p => Nat.le_of_eq (hdue p).symm⟩
  | special kind content => exact ⟨[], Holds.nil rfl, fun _ => Nat.zero_le _⟩
  | element tag children h =>
      have hc := (Dom.Element.mem_children_iff e ⟨e.name, e.innerRole, tag, children⟩).mpr
        ⟨hchild, rfl, rfl⟩
      exact h.within hmade (hdata.descendant (Dom.Element.mem_descendants_of_mem_children hc))

/-- The children of an element, each within what it is due, are together within what the element
    is due. -/
theorem children_within {parts : List (List Node)}
    (h : List.Forall₂ (MadeChild o made e) e.nodes parts) :
    Within Holds (due · e) parts.flatten := by
  have hparts : List.Forall₂ (fun (child : Dom.Node) part =>
      Within Holds (fun p => tally p copies (child.placedTexts [])) part) e.nodes parts :=
    ((List.forall₂_and_left _ _).mpr ⟨fun _ hchild => hchild, h⟩).imp
      fun child part hpart => hpart.2.within hmade hdata hpart.1
  rcases exists_texts hparts with ⟨texts, htexts, hlimit⟩
  refine ⟨texts.flatten, Holds.flatten htexts, fun p => Nat.le_trans (hlimit p) ?_⟩
  exact Nat.le_of_eq (Dom.sum_tally_nodes p copies [] e.nodes)

end

end

/-- No text comes up more often than its place lets it. The visible characters of a tree, without
    separators and with the escapes undone, are no more than those of the page, each text with its
    copies. If every text that shows has at most one row and one cell around it, they are no more
    than those of the page. The separators that are left out have dashes only. -/
theorem lower_copies (o : Options) (ho : o.WithoutElementHooks) (indent : Int) (e : Dom.Element)
    (hdata : e.HasNoData) :
    (∃ nodes bare, (lower o indent e).result = .ok nodes ∧ List.Forall₂ Separated bare nodes ∧
        (∀ p, p '-' = false → seen p (textOf undone nodes) = seen p (textOf undone bare)) ∧
        (∀ p, seen p (textOf undone bare) ≤ tally p copies (placedTexts [] e.nodes)) ∧
        ((∀ t ∈ placedTexts [] e.nodes, Dom.Shows t.2 →
            t.1.countP isRowName ≤ 1 ∧ t.1.countP isCellName ≤ 1) →
          ∀ p, seen p (textOf undone bare) ≤ seen p (Dom.textOf e.nodes))) ∨
      ∃ fault, (lower o indent e).result = .error fault ∧ LoweringFault o e.descendants fault := by
  have hends := lower_made (fun _ d nodes => d.HasNoData → Within Holds (due · d) nodes) ho
    (fun _ => flattened_within)
    (fun _ _ _ hparts hdata => children_within (fun _ _ hd h => h hd) hdata hparts) indent e
  rcases hends.cases with ⟨nodes, hnodes, hwithin⟩ | hfault
  · rcases hwithin hdata with ⟨text, ⟨bare, hbare, htext⟩, hlimit⟩
    have hall : ∀ p, seen p (textOf undone bare) ≤ tally p copies (placedTexts [] e.nodes) := by
      intro p
      rw [Dom.seen_congr htext]
      exact hlimit p
    refine Or.inl ⟨nodes, bare, hnodes, hbare, fun p hp => seen_nodes_eq hp hbare, hall,
      fun honce p => ?_⟩
    -- Texts that come up once make the text of the page.
    rw [← Dom.tally_one p [] e.nodes]
    refine Nat.le_trans (hall p) (Nat.le_of_eq (Dom.tally_congr fun t ht hshows => ?_))
    exact copies_eq_one (honce t ht hshows).1 (honce t ht hshows).2
  · exact Or.inr hfault

/-- A paragraph, code, a list of links, and a table with a header and a list in a cell. -/
theorem lower_copies_mixed :
    let plain (name : String) (nodes : List Dom.Node) : Dom.Node := .element ⟨name, []⟩ nodes
    let e : Dom.Element := ⟨"body", .ordinary, ⟨"div", []⟩,
      [plain "p" [.text "one"], plain "pre" [plain "code" [.text "two"]],
        plain "ul" [plain "li" [plain "a" [.text "three"]], plain "li" [.special .comment "no"]],
        plain "table" [plain "tr" [plain "th" [.text "a|b"], plain "th" []],
          plain "tr" [plain "td" [plain "ul" [plain "li" [.text "4"]]], plain "td" [.text "c"]]]]⟩
    Options.default.WithoutElementHooks ∧ e.HasNoData ∧
      ∃ nodes bare, (lower Options.default 0 e).result = .ok nodes ∧
        List.Forall₂ Separated bare nodes ∧
        ∀ p, seen p (textOf undone bare) ≤ seen p (Dom.textOf e.nodes) := by
  intro plain e
  have ho : Options.default.WithoutElementHooks := ⟨rfl, rfl⟩
  have hdata : e.HasNoData := by
    unfold Dom.Element.HasNoData
    decide
  refine ⟨ho, hdata, ?_⟩
  rcases lower_copies Options.default ho 0 e hdata with
    ⟨nodes, bare, hnodes, hbare, _, _, honce⟩ | ⟨_, _, hfault⟩
  · exact ⟨nodes, bare, hnodes, hbare, honce (by decide +kernel)⟩
  · exact (hfault.false_of_plain rfl nofun rfl rfl).elim

/-- The text of a table in a cell comes up three times: in the cell around it, in the first row,
    which takes all cells below it, and in a row of its own. Whatever is left out as a separator,
    the tree has more characters than the page. -/
theorem lower_copies_nested :
    let plain (name : String) (nodes : List Dom.Node) : Dom.Node := .element ⟨name, []⟩ nodes
    let e : Dom.Element := ⟨"[document]", .ordinary, ⟨"div", []⟩,
      [plain "table" [plain "tr" [plain "td"
        [plain "table" [plain "tr" [plain "td" [.text "x"]]]]]]]⟩
    let cell : Cell := .plain "x" Markdown.CellMarks.none
    let nodes : List Node := [.table
      [[.rich [.table [[cell]] none] Markdown.CellMarks.none, cell], [cell]] none]
    Options.default.WithoutElementHooks ∧ Options.default.metadata.wanted = false ∧ e.HasNoData ∧
      (lower Options.default 0 e).result = .ok nodes ∧
      placedTexts [] e.nodes = [(["table", "tr", "td", "table", "tr", "td"], "x")] ∧
      copies ["table", "tr", "td", "table", "tr", "td"] = 3 ∧
      ∀ bare, List.Forall₂ Separated bare nodes →
        seen (fun _ => true) (Dom.textOf e.nodes) < seen (fun _ => true) (textOf undone bare) :=
  ⟨⟨rfl, rfl⟩, rfl, by unfold Dom.Element.HasNoData; decide, rfl, rfl, by decide +kernel,
    fun bare hbare => by
      have hthree : seen (· == 'x') "xxx".toList = 3 := by decide
      have hx := (seen_nodes_eq (p := (· == 'x')) (by decide) hbare).symm.trans hthree
      have hle : seen (· == 'x') (textOf undone bare) ≤ seen (fun _ => true) (textOf undone bare) :=
        List.countP_mono_left fun _ _ _ => rfl
      rw [hx] at hle
      exact Nat.lt_of_lt_of_le (by decide) hle⟩

end PageDistill
