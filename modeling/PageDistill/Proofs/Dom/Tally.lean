import Mathlib.Algebra.Ring.Nat
import PageDistill.Proofs.Dom.Descendants
import PageDistill.Proofs.Dom.PageText

/-!
# Counting the Text of a Page

How many visible characters the texts of a page have, each text counted as often as its place
says.

A tally takes the texts of a page with the names of the elements around them (`placedTexts`) and a
number of times for each such list of names. It counts the characters that some test accepts, so an
inequality of tallies for every test compares texts character by character, in any order.

Going down to an element puts its name in front of the names around its texts (`tally_placedTexts`).
When the tallies of all elements of some names are added up, a text counts once for each such
element around it, with the names that are left from there on (`sum_tally_elements`).

What an element says is part of its text, as long as there is no character data
(`Element.text_sublist`); this is the other half of counting.

## Main definitions

* `seen`: The visible characters of a text that a test accepts.
* `tally`: The same over texts in their places.
* `Element.HasNoData`: There is no character data in an element.

## Theorems

* `tally_mono`, `tally_congr`, `tally_one`: A tally by the times of its texts.
* `sum_tally_nodes`: The tallies of nodes, added up.
* `tally_placedTexts`: A tally inside an element.
* `sum_tally_elements`: The tallies of elements of some names, added up.
* `Element.text_sublist`: What an element says is part of its text.
-/

namespace PageDistill

open Text (visible)

namespace Dom

/-- The number of visible characters of a text that a test accepts. -/
def seen (p : Char → Bool) (s : List Char) : Nat := (visible s).countP p

/-- The number of visible characters of some texts that a test accepts, where a text counts a
    number of times that depends on the names around it. -/
def tally (p : Char → Bool) (times : List String → Nat) (texts : List (List String × String)) :
    Nat :=
  (texts.map fun t => times t.1 * seen p t.2.toList).sum

theorem seen_append (p : Char → Bool) (a b : List Char) :
    seen p (a ++ b) = seen p a + seen p b := by
  rw [seen, Text.visible_append, List.countP_append]
  rfl

/-- Only what is visible counts. -/
theorem seen_congr {a b : List Char} (h : visible a = visible b) (p : Char → Bool) :
    seen p a = seen p b := congrArg (List.countP p) h

section

variable {p : Char → Bool} {times more : List String → Nat} {texts : List (List String × String)}

theorem tally_append (p : Char → Bool) (times : List String → Nat)
    (a b : List (List String × String)) :
    tally p times (a ++ b) = tally p times a + tally p times b := by
  rw [tally, List.map_append, List.sum_append]
  rfl

/-- A text counts as often as the names around it say. -/
theorem tally_singleton (p : Char → Bool) (times : List String → Nat) (t : List String × String) :
    tally p times [t] = times t.1 * seen p t.2.toList := by
  rw [tally, List.map_singleton, List.sum_singleton]

theorem tally_zero (p : Char → Bool) (texts : List (List String × String)) :
    tally p (fun _ => 0) texts = 0 := by
  induction texts with
  | nil => rfl
  | cons t texts ih =>
      rw [tally, List.map_cons, List.sum_cons, Nat.zero_mul, Nat.zero_add]
      exact ih

/-- Texts that count more often make a tally that is no less. -/
theorem tally_mono (h : ∀ names, times names ≤ more names) :
    tally p times texts ≤ tally p more texts := by
  induction texts with
  | nil => exact Nat.le_refl _
  | cons t texts ih =>
      have hfirst := Nat.mul_le_mul_right (seen p t.2.toList) (h t.1)
      exact Nat.add_le_add hfirst ih

/-- Texts that show nothing do not matter for a tally. -/
theorem tally_congr (h : ∀ t ∈ texts, Shows t.2 → times t.1 = more t.1) :
    tally p times texts = tally p more texts := by
  refine congrArg List.sum (List.map_congr_left fun t ht => ?_)
  by_cases hshows : Shows t.2
  · rw [h t ht hshows]
  · have hhidden : visible t.2.toList = [] := Decidable.not_not.mp hshows
    rw [seen, hhidden]
    rfl

/-- Counts add up text by text. -/
theorem tally_add (p : Char → Bool) (times more : List String → Nat)
    (texts : List (List String × String)) :
    tally p (fun names => times names + more names) texts =
      tally p times texts + tally p more texts := by
  induction texts with
  | nil => rfl
  | cons t texts ih =>
      have hsplit : ∀ f, tally p f (t :: texts) = f t.1 * seen p t.2.toList + tally p f texts :=
        fun f => rfl
      rw [hsplit, hsplit, hsplit, ih, Nat.add_mul]
      omega

end

/-- The tallies of nodes make the tally of all of them. -/
theorem sum_tally_nodes (p : Char → Bool) (times : List String → Nat) (around : List String)
    (nodes : List Node) :
    (nodes.map fun node => tally p times (node.placedTexts around)).sum =
      tally p times (placedTexts around nodes) := by
  induction nodes with
  | nil => rfl
  | cons node nodes ih => rw [placedTexts, tally_append, List.map_cons, List.sum_cons, ih]

mutual

/-- More names around a node are more names around its texts. -/
theorem Node.placedTexts_eq_map (around : List String) (node : Node) :
    node.placedTexts around = (node.placedTexts []).map fun t => (around ++ t.1, t.2) := by
  cases node with
  | text content => simp [Node.placedTexts]
  | special kind content => rfl
  | element tag children =>
      rw [Node.placedTexts, Node.placedTexts, placedTexts_eq_map (around ++ [tag.name]),
        placedTexts_eq_map ([] ++ [tag.name]), List.map_map]
      simp

/-- The names around the nodes stand in front of those around each text. -/
theorem placedTexts_eq_map (around : List String) (nodes : List Node) :
    placedTexts around nodes = (placedTexts [] nodes).map fun t => (around ++ t.1, t.2) := by
  cases nodes with
  | nil => rfl
  | cons node nodes =>
      rw [placedTexts, placedTexts, List.map_append, Node.placedTexts_eq_map around node,
        placedTexts_eq_map around nodes]

end

/-- In a tally inside an element, each text counts by the names that begin with the element. -/
theorem tally_placedTexts (p : Char → Bool) (times : List String → Nat) (name : String)
    (nodes : List Node) :
    tally p times (placedTexts [name] nodes) =
      tally p (fun inner => times (name :: inner)) (placedTexts [] nodes) := by
  rw [tally, placedTexts_eq_map, List.map_map]
  rfl

mutual

theorem Node.tally_one (p : Char → Bool) (around : List String) (node : Node) :
    tally p (fun _ => 1) (node.placedTexts around) = seen p node.ownText := by
  cases node with
  | text content => rw [Node.placedTexts, tally_singleton, Nat.one_mul, Node.ownText]
  | special kind content => rfl
  | element tag children => exact Dom.tally_one p _ children

/-- Texts that count once make the tally of the whole text. -/
theorem tally_one (p : Char → Bool) (around : List String) (nodes : List Node) :
    tally p (fun _ => 1) (placedTexts around nodes) = seen p (textOf nodes) := by
  cases nodes with
  | nil => rfl
  | cons node nodes =>
      rw [placedTexts, tally_append, textOf_cons, seen_append, Node.tally_one p around node,
        tally_one p around nodes]

end

section

variable (names : String → Bool) (times : List String → Nat) {through : List String → Nat}

mutual

theorem Node.sum_tally_elements (hnil : through [] = 0)
    (hcons : ∀ name inner,
      through (name :: inner) = (if names name then times inner else 0) + through inner)
    (p : Char → Bool) (parent : String) (role : TextRole) (node : Node) :
    (((node.elements parent role).filter fun d => names d.name).map fun d =>
      tally p times (placedTexts [] d.nodes)).sum = tally p through (node.placedTexts []) := by
  cases node with
  | text content => rw [Node.placedTexts, tally_singleton, hnil, Nat.zero_mul]; rfl
  | special kind content => rfl
  | element tag children =>
      have hbelow := Dom.sum_tally_elements hnil hcons p tag.name (role.within tag.name)
        children
      -- A text below counts for this element, if it is named, and for the named ones further down.
      have hown : tally p through ((Node.element tag children).placedTexts []) =
          tally p (fun inner => if names tag.name then times inner else 0)
            (placedTexts [] children) + tally p through (placedTexts [] children) := by
        rw [← tally_add]
        refine (tally_placedTexts p through tag.name children).trans ?_
        simp only [hcons]
      rw [hown, ← hbelow, Node.elements, List.filter_cons, Element.name_mk]
      by_cases hname : names tag.name = true
      · simp only [if_pos hname]
        rw [List.map_cons, List.sum_cons]
      · simp only [if_neg hname]
        rw [tally_zero, Nat.zero_add]

/-- Over all elements of some names, a text counts for each of them that is around it, with the
    names that are left below that one. -/
theorem sum_tally_elements (hnil : through [] = 0)
    (hcons : ∀ name inner,
      through (name :: inner) = (if names name then times inner else 0) + through inner)
    (p : Char → Bool) (parent : String) (role : TextRole) (nodes : List Node) :
    (((elementsOf parent role nodes).filter fun d => names d.name).map fun d =>
      tally p times (placedTexts [] d.nodes)).sum = tally p through (placedTexts [] nodes) := by
  cases nodes with
  | nil => rfl
  | cons node nodes =>
      rw [elementsOf, placedTexts, tally_append, List.filter_append, List.map_append,
        List.sum_append, Node.sum_tally_elements hnil hcons p parent role node,
        sum_tally_elements hnil hcons p parent role nodes]

end

end

/-- The string is text, of any role. -/
def ClassedString.isText (s : ClassedString) : Bool :=
  match s.kind with
  | .text _ => true
  | .special _ => false

mutual

theorem Node.flatten_texts (role : TextRole) (node : Node) :
    (((node.strings role).filter ClassedString.isText).map fun s => s.content.toList).flatten =
      node.ownText := by
  cases node with
  | text content => exact List.append_nil _
  | special kind content => rfl
  | element tag children => exact Dom.flatten_texts _ children

/-- The text of nodes is that of their strings which are text. -/
theorem flatten_texts (role : TextRole) (nodes : List Node) :
    (((stringsOf role nodes).filter ClassedString.isText).map fun s => s.content.toList).flatten =
      textOf nodes := by
  cases nodes with
  | nil => rfl
  | cons node nodes =>
      rw [stringsOf, textOf_cons, List.filter_append, List.map_append, List.flatten_append,
        Node.flatten_texts role node, flatten_texts role nodes]

end

namespace Element

/-- There is no character data in the element. -/
def HasNoData (e : Element) : Prop :=
  ∀ s ∈ stringsOf e.innerRole e.nodes, s.kind ≠ .special .cdata

variable {e : Element} (h : e.HasNoData)

include h

/-- What is below has no data either. -/
theorem HasNoData.descendant {d : Element} (hd : d ∈ e.descendants) : d.HasNoData := by
  have hchild : ∀ c d : Element, c.HasNoData → d ∈ c.children → d.HasNoData :=
    fun c d hc hd s hs => hc s (stringsOf_subset_of_mem_children hd hs)
  exact descendants_induction e (fun c hc => hchild e c h hc) hchild d hd

/-- What an element says is part of its text. -/
theorem text_sublist : e.text.Sublist (textOf e.nodes) := by
  -- Without character data only text is said.
  have hsaid : (stringsOf e.innerRole e.nodes).filter (fun s => e.holds s.kind) =
      ((stringsOf e.innerRole e.nodes).filter ClassedString.isText).filter
        fun s => e.holds s.kind := by
    rw [List.filter_filter]
    refine List.filter_congr fun s hs => ?_
    have hkind := h s hs
    unfold ClassedString.isText holds
    cases hclass : s.kind with
    | text role => rw [Bool.and_true]
    | special kind =>
        rw [hclass] at hkind
        rw [Bool.and_false]
        cases TextRole.ofName? e.name with
        | none => simpa using hkind
        | some role => rfl
  rw [← flatten_texts e.innerRole, text, strings, hsaid]
  exact (List.filter_sublist.map _).flatten

/-- The text of an element shows no more than its nodes do. -/
theorem seen_text_le (p : Char → Bool) : seen p e.text ≤ seen p (textOf e.nodes) :=
  ((text_sublist h).filter _).countP_le

end Element

end Dom

end PageDistill
