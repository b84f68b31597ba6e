import Mathlib.Data.List.Basic
import PageDistill.Proofs.Dom.PageText
import PageDistill.Text.Fold

/-!
# Tidy Pages

Pages whose text all stands where it is looked for.

A page can hold text in places where no rule of lowering looks: in a script, directly in a
list, in a table but in no cell of it. `Element.Tidy` says that there is none. It is asked
of the element that is converted, and what it asks goes over to every element below
(`Tidy.descendant`), so it can be used at any depth.

Tables need the names around the element too, because a row or a cell belongs to every table
around it. A text that shows has to stand in exactly one table, one row and one cell, in this
order. Then a table has no other one around it, its rows cover its text, and the cells of each row
cover the text of the row (`covered_of_cellPlaces`). A table without visible text, such as one that
lays out nothing, may stand anywhere.

## Main definitions

* `untidyNames`: The elements that a tidy page does not have.
* `tableParts`: The names of tables, rows and cells among some names.
* `Element.Tidy`: An element with a tidy page below it.

## Theorems

* `Tidy.descendant`: Elements below are tidy too.
* `Tidy.text_eq_textOf`: What an element says is the text below it.
* `Tidy.visible_list`: The text of a list is the text of its children.
* `Tidy.visible_table`: The text of a table is the text of its cells, row by row.
-/

namespace PageDistill

open Text (visible)

namespace Dom

/-- The elements that a tidy page does not have: those whose text is not ordinary, and those
    that are left out. -/
def untidyNames : List String :=
  ["script", "style", "noscript", "html", "template", "rt", "rp", "video"]

/-- Tables, their rows and their cells. -/
def isTablePart (name : String) : Bool := ["table", "tr", "td", "th"].contains name

/-- The names of tables, rows and cells among some names. -/
def tableParts (names : List String) : List String := names.filter isTablePart

/-- The places of text in a table. -/
def cellPlaces : List (List String) := [["table", "tr", "td"], ["table", "tr", "th"]]

namespace Element

/-- An element with a tidy page below it, when elements of some names are around it, itself
    included. -/
structure Tidy (around : List String) (e : Element) : Prop where
  role : e.innerRole = .ordinary
  folded : ∀ d ∈ e.descendants, Text.foldName d.name = d.name
  named : ∀ d ∈ e.descendants, d.name ∉ untidyNames
  noData : ∀ s ∈ stringsOf e.innerRole e.nodes, s.kind ≠ .special .cdata
  childless : ∀ d ∈ e.descendants, d.name = "img" ∨ d.name = "br" → d.nodes = []
  lists : ∀ d ∈ e.descendants, d.name = "ul" ∨ d.name = "ol" →
    ∀ node ∈ d.nodes, node.isText = true → visible node.ownText = []
  tables : ∀ p ∈ placedTexts around e.nodes, Shows p.2 → "table" ∈ p.1 →
    tableParts p.1 ∈ cellPlaces

instance (around : List String) (e : Element) : Decidable (e.Tidy around) :=
  decidable_of_iff
    (e.innerRole = .ordinary ∧ (∀ d ∈ e.descendants, Text.foldName d.name = d.name) ∧
      (∀ d ∈ e.descendants, d.name ∉ untidyNames) ∧
      (∀ s ∈ stringsOf e.innerRole e.nodes, s.kind ≠ .special .cdata) ∧
      (∀ d ∈ e.descendants, d.name = "img" ∨ d.name = "br" → d.nodes.isEmpty = true) ∧
      (∀ d ∈ e.descendants, d.name = "ul" ∨ d.name = "ol" →
        ∀ node ∈ d.nodes, node.isText = true → visible node.ownText = []) ∧
      ∀ p ∈ placedTexts around e.nodes, Shows p.2 → "table" ∈ p.1 → tableParts p.1 ∈ cellPlaces)
    (by
      simp only [List.isEmpty_iff]
      exact ⟨fun ⟨role, folded, named, noData, childless, lists, tables⟩ =>
          ⟨role, folded, named, noData, childless, lists, tables⟩,
        fun h => ⟨h.role, h.folded, h.named, h.noData, h.childless, h.lists, h.tables⟩⟩)

/-- An element of another name gives no role to its text. -/
theorem ofName?_eq_none (name : String) (h : name ∉ untidyNames) :
    TextRole.ofName? name = none := by
  have hne : ∀ other ∈ untidyNames, name ≠ other := fun other hother heq => h (heq ▸ hother)
  unfold TextRole.ofName?
  rw [if_neg (hne "script" (by decide)), if_neg (hne "style" (by decide)),
    if_neg (hne "template" (by decide)), if_neg (hne "rt" (by decide)),
    if_neg (hne "rp" (by decide))]

namespace Tidy

variable {around : List String} {e : Element} (h : e.Tidy around)

include h

theorem child {c : Element} (hc : c ∈ e.children) : c.Tidy (around ++ [c.name]) := by
  have hbelow := descendants_subset_of_mem_children hc
  rcases (mem_children_iff e c).mp hc with ⟨_, _, hrole⟩
  exact
    { role := by
        have hname := ofName?_eq_none c.name (h.named c (mem_descendants_of_mem_children hc))
        rw [innerRole, TextRole.within, hname, Option.getD_none, hrole, h.role]
      folded := fun d hd => h.folded d (hbelow hd)
      named := fun d hd => h.named d (hbelow hd)
      noData := fun s hs => h.noData s (stringsOf_subset_of_mem_children hc hs)
      childless := fun d hd => h.childless d (hbelow hd)
      lists := fun d hd => h.lists d (hbelow hd)
      tables := fun p hp => h.tables p (placedTexts_subset_of_mem_children hc around hp) }

/-- Elements below a tidy element are tidy, with some names between. -/
theorem descendant {d : Element} (hd : d ∈ e.descendants) :
    ∃ between, d.Tidy (around ++ between ++ [d.name]) := by
  refine descendants_induction (motive := fun d => ∃ between,
    d.Tidy (around ++ between ++ [d.name])) e (fun c hc => ⟨[], ?_⟩) (fun d c hd hc => ?_) d hd
  · rw [List.append_nil]
    exact h.child hc
  · rcases hd with ⟨between, htidy⟩
    refine ⟨between ++ [d.name], ?_⟩
    rw [← List.append_assoc]
    exact htidy.child hc

end Tidy

end Element

/-- The contents of the strings that are ordinary text or character data. -/
def plainContent (strings : List ClassedString) : List Char :=
  ((strings.filter fun s => s.kind == .text .ordinary || s.kind == .special .cdata).map
    fun s => s.content.toList).flatten

theorem plainContent_append (a b : List ClassedString) :
    plainContent (a ++ b) = plainContent a ++ plainContent b := by
  unfold plainContent
  rw [List.filter_append, List.map_append, List.flatten_append]

mutual

/-- Without roles and character data below it, the strings of a node are its text. -/
theorem Node.plainContent_strings (parent : String) (node : Node)
    (hroles : ∀ d ∈ node.elements parent .ordinary, TextRole.ofName? d.name = none)
    (hdata : ∀ s ∈ node.strings .ordinary, s.kind ≠ .special .cdata) :
    plainContent (node.strings .ordinary) = node.ownText := by
  cases node with
  | text content => exact List.append_nil _
  | special kind content =>
      have hkind : ¬ (kind = .cdata) := fun hcdata =>
        hdata ⟨.special kind, content⟩ (by rw [Node.strings]; exact List.mem_cons_self)
          (by rw [hcdata])
      rw [Node.strings, Node.ownText]
      simp [plainContent, hkind]
  | element tag children =>
      -- No element gives the text inside it a role of its own, so the role stays the ordinary one.
      have hname : TextRole.ofName? tag.name = none :=
        hroles ⟨parent, .ordinary, tag, children⟩ (by rw [Node.elements]; exact List.mem_cons_self)
      have hrole : TextRole.ordinary.within tag.name = .ordinary := by
        rw [TextRole.within, hname]
        rfl
      rw [Node.elements, hrole] at hroles
      rw [Node.strings, hrole] at hdata ⊢
      exact plainContent_stringsOf tag.name children
        (fun d hd => hroles d (List.mem_cons_of_mem _ hd)) hdata

theorem plainContent_stringsOf (parent : String) (nodes : List Node)
    (hroles : ∀ d ∈ elementsOf parent .ordinary nodes, TextRole.ofName? d.name = none)
    (hdata : ∀ s ∈ stringsOf .ordinary nodes, s.kind ≠ .special .cdata) :
    plainContent (stringsOf .ordinary nodes) = textOf nodes := by
  cases nodes with
  | nil => rfl
  | cons node nodes =>
      rw [elementsOf] at hroles
      rw [stringsOf] at hdata ⊢
      rw [plainContent_append, textOf_cons,
        Node.plainContent_strings parent node
          (fun d hd => hroles d (List.mem_append_left _ hd))
          (fun s hs => hdata s (List.mem_append_left _ hs)),
        plainContent_stringsOf parent nodes
          (fun d hd => hroles d (List.mem_append_right _ hd))
          (fun s hs => hdata s (List.mem_append_right _ hs))]

end

/-- The text of an element in which all text nodes are blank is the text of its children. -/
theorem visible_textOf_of_blank (e : Element)
    (h : ∀ node ∈ e.nodes, node.isText = true → visible node.ownText = []) :
    visible (textOf e.nodes) = e.children.flatMap fun c => visible (textOf c.nodes) := by
  rcases e with ⟨parent, role, tag, nodes⟩
  induction nodes with
  | nil => rfl
  | cons node nodes ih =>
      have hrest := ih fun other hmem => h other (List.mem_cons_of_mem node hmem)
      rw [textOf_cons, Text.visible_append, hrest]
      cases node with
      | text content =>
          rw [h (.text content) List.mem_cons_self rfl]
          rfl
      | special kind content => rfl
      | element inner children => rfl

theorem tableParts_append (a b : List String) :
    tableParts (a ++ b) = tableParts a ++ tableParts b := List.filter_append a b

theorem countP_eq_countP_tableParts (names : String → Bool)
    (h : ∀ name, names name = true → isTablePart name = true) (path : List String) :
    path.countP names = (tableParts path).countP names := by
  rw [tableParts, List.countP_filter]
  refine List.countP_congr fun name _ => ?_
  constructor
  · intro hname
    rw [hname, h name hname]
    rfl
  · intro hboth
    rw [Bool.and_eq_true] at hboth
    exact hboth.1

/-- What stands before a name at the beginning of a place in a table. -/
theorem eq_of_isPrefix_cellPlace (front place : List String) (name : String)
    (hplace : place ∈ cellPlaces) (h : front ++ [name] <+: place) :
    (name = "table" → front = []) ∧ (name = "tr" → front = ["table"]) := by
  have hcases : ∃ cell, (cell = "td" ∨ cell = "th") ∧ place = ["table", "tr", cell] := by
    rcases List.mem_cons.mp hplace with rfl | hth
    · exact ⟨"td", Or.inl rfl, rfl⟩
    · rw [List.mem_singleton.mp hth]
      exact ⟨"th", Or.inr rfl, rfl⟩
  rcases hcases with ⟨cell, hcell, rfl⟩
  rcases h with ⟨rest, heq⟩
  -- The name is the last of one, two or three names of the place.
  match front, heq with
  | [], heq =>
      simp only [List.nil_append, List.cons_append, List.cons.injEq] at heq
      refine ⟨fun _ => rfl, fun hname => ?_⟩
      rw [hname] at heq
      exact absurd heq.1 (by decide)
  | [first], heq =>
      simp only [List.nil_append, List.cons_append, List.cons.injEq] at heq
      refine ⟨fun hname => ?_, fun _ => by rw [heq.1]⟩
      rw [hname] at heq
      exact absurd heq.2.1 (by decide)
  | [first, second], heq =>
      simp only [List.nil_append, List.cons_append, List.cons.injEq] at heq
      have hname := heq.2.2.1
      rcases hcell with rfl | rfl
      · exact ⟨fun h => absurd (h.symm.trans hname) (by decide),
          fun h => absurd (h.symm.trans hname) (by decide)⟩
      · exact ⟨fun h => absurd (h.symm.trans hname) (by decide),
          fun h => absurd (h.symm.trans hname) (by decide)⟩
  | _ :: _ :: _ :: _, heq => simp at heq

/-- Text that stands in table cells is covered by the elements of some names, seen from an
    element of another name, if these names stand once in each place and not before the
    element. -/
theorem covered_of_cellPlaces (names : String → Bool) (front : List String) (name : String)
    (nodes : List Node) (hparts : ∀ other, names other = true → isTablePart other = true)
    (hname : isTablePart name = true) (hone : ∀ place ∈ cellPlaces, place.countP names = 1)
    (hfront : ∀ place ∈ cellPlaces, tableParts front ++ [name] <+: place →
      (tableParts front ++ [name]).countP names = 0)
    (hplaces : ∀ p ∈ placedTexts (front ++ [name]) nodes, Shows p.2 →
      tableParts p.1 ∈ cellPlaces) :
    Covered names 1 (front ++ [name]) (placedTexts (front ++ [name]) nodes) := by
  intro p hp hshows
  have hplace := hplaces p hp hshows
  have hself : tableParts (front ++ [name]) = tableParts front ++ [name] := by
    rw [tableParts_append]
    exact congrArg (tableParts front ++ ·) (List.filter_cons_of_pos hname)
  -- What is around the element is the beginning of what is around the text.
  have hbefore : tableParts front ++ [name] <+: tableParts p.1 := by
    rw [← hself]
    exact (isPrefix_of_mem_placedTexts _ nodes p hp).filter isTablePart
  rw [countP_eq_countP_tableParts names hparts p.1, hone _ hplace,
    countP_eq_countP_tableParts names hparts, hself, hfront _ hplace hbefore]

namespace Element.Tidy

/-- The text of a table is the text of its cells, row by row. -/
theorem visible_table {around : List String} {e : Element} (h : e.Tidy (around ++ ["table"])) :
    visible (textOf e.nodes) = (e.named "tr").flatMap fun row =>
      (row.descendants.filter fun d => d.name == "th" || d.name == "td").flatMap fun cell =>
        visible (textOf cell.nodes) := by
  have hplaces : ∀ p ∈ placedTexts (around ++ ["table"]) e.nodes, Shows p.2 →
      tableParts p.1 ∈ cellPlaces := by
    intro p hp hshows
    refine h.tables p hp hshows ((isPrefix_of_mem_placedTexts _ e.nodes p hp).subset ?_)
    exact List.mem_append_right _ List.mem_cons_self
  -- The rows cover the table: only the table itself is around them.
  have hrows : Covered (fun name => name == "tr") 1 (around ++ ["table"])
      (placedTexts (around ++ ["table"]) e.nodes) := by
    refine covered_of_cellPlaces _ around "table" e.nodes (fun other hother => ?_) (by decide)
      (by decide) (fun place hplace hprefix => ?_) hplaces
    · rw [beq_iff_eq.mp hother]
      decide
    · rw [(eq_of_isPrefix_cellPlace _ place "table" hplace hprefix).1 rfl]
      decide
  rw [visible_textOf_of_covered _ _ e.name e.innerRole e.nodes hrows, Element.named,
    Element.descendants]
  refine List.flatMap_congr fun row hrow => ?_
  rw [List.mem_filter, beq_iff_eq] at hrow
  rcases exists_between e row (around ++ ["table"]) hrow.1 with ⟨between, hsub⟩
  rw [hrow.2] at hsub
  -- The cells cover each row: only the table and the row are around them.
  refine visible_textOf_of_covered (fun name => name == "th" || name == "td")
    (around ++ ["table"] ++ between ++ ["tr"]) row.name row.innerRole row.nodes ?_
  refine covered_of_cellPlaces _ _ "tr" row.nodes (fun other hother => ?_) (by decide) (by decide)
    (fun place hplace hprefix => ?_) fun p hp => hplaces p (hsub hp)
  · rw [Bool.or_eq_true, beq_iff_eq, beq_iff_eq] at hother
    rcases hother with rfl | rfl <;> decide
  · rw [(eq_of_isPrefix_cellPlace _ place "tr" hplace hprefix).2 rfl]
    decide

/-- The text of a list is the text of its children. -/
theorem visible_list {around : List String} {e c : Element} (h : e.Tidy around)
    (hc : c ∈ e.children) (hname : c.name = "ul" ∨ c.name = "ol") :
    visible (textOf c.nodes) = c.children.flatMap fun item => visible (textOf item.nodes) :=
  visible_textOf_of_blank c (h.lists c (mem_descendants_of_mem_children hc) hname)

variable {around : List String} {e : Element} (h : e.Tidy around)

include h

/-- What an element that gives no role to its text says is the text below it. -/
theorem text_eq_textOf (hname : e.name ∉ untidyNames) : e.text = textOf e.nodes := by
  have hroles : ∀ d ∈ elementsOf e.name .ordinary e.nodes, TextRole.ofName? d.name = none := by
    rw [← h.role]
    exact fun d hd => ofName?_eq_none d.name (h.named d hd)
  have hdata := h.noData
  rw [h.role] at hdata
  rw [← plainContent_stringsOf e.name e.nodes hroles hdata, Element.text, Element.strings, h.role]
  unfold holds
  rw [ofName?_eq_none e.name hname]
  rfl

end Element.Tidy

end Dom

end PageDistill
