import PageDistill.Proofs.Markdown.ListLines

/-!
# The Columns of Markers

At which columns the markers of a list stand, wherever it is the only child of a quote or of a
semantic element.

A list that stands directly in an item is indented for its level, and so are all its markers. In a
quote or a semantic element this is not so for the first one. The contents of these are trimmed
before they are put on their lines, which takes the indentation of the first line away and leaves
that of the others. So the first marker stands two columns further to the left for each level,
unless an item puts its own marker in front of it on the same line.

`Spot.opening` follows that from the list outwards, and `Spot.margin` is the margin of the other
lines.

## Main definitions

* `Container`: Quotes and semantic elements.
* `Spot`: The places of a list in containers and items.
* `Spot.fill`: The block with a list in a place.
* `Spot.margin`, `Spot.opening`: What stands in front of the markers.

## Theorems

* `Spot.shows`: A list stands behind its two margins.
* `renderPage_list_columns`: The lines of a list in a page.
-/

namespace PageDistill

namespace Markdown

/-- The blocks that hold nodes and are neither lists nor tables nor headings. -/
inductive Container where
  | quote
  | semantic (element : String)

namespace Container

/-- A container with some contents. -/
def node (c : Container) (content : List Node) : Node :=
  match c with
  | quote => .quote content
  | semantic element => .semantic element content

/-- What a container puts in front of every line. -/
def mark : Container → List Char
  | quote => ['>', ' ']
  | semantic _ => []

/-- Whether what a container holds begins on its first line. -/
def isBare : Container → Bool
  | quote => true
  | semantic element => element == "article"

end Container

/-- A place for a list: the only child of a container, which stands among other nodes in containers
    and in items of lists. -/
inductive Spot where
  | only (c : Container)
  | inside (c : Container) (front : List Node) (spot : Spot) (back : List Node)
  | item (ordered : Bool) (above : List (List Node)) (front : List Node) (spot : Spot)
      (back : List Node) (below : List (List Node))

namespace Spot

/-- The block with a list in its place. -/
def fill (list : Node) : Spot → Node
  | only c => c.node [list]
  | inside c front spot back => c.node (front ++ spot.fill list :: back)
  | item ordered above front spot back below =>
    .list ordered (above ++ (front ++ spot.fill list :: back) :: below)

/-- What stands in front of the markers of all items of the list but the first: the mark of every
    quote, and the indentation of the level. -/
def margin (indent : Int) : Spot → List Char
  | only c => c.mark ++ List.replicate (2 * indent.toNat) ' '
  | inside c _ spot _ => c.mark ++ spot.margin indent
  | item _ _ _ spot _ _ => spot.margin (indent + 1)

/-- What stands in front of the marker of the first item, and whether nothing stands above it. At
    each step the contents are trimmed. Where nothing but blank stands above the list, this takes
    the blank in front of it too. -/
def opening (indent : Int) : Spot → List Char × Bool
  | only c => (c.mark, c.isBare)
  | inside c front spot _ =>
    let inner := spot.opening indent
    let top := inner.2 && front.all fun node => Text.isAllBlank (node.block indent)
    (c.mark ++ (if top then inner.1.dropWhile Text.isBlank else inner.1), top && c.isBare)
  | item ordered above front spot _ _ =>
    let inner := spot.opening (indent + 1)
    let top := inner.2 && front.all fun node => Text.isAllBlank (node.block (indent + 1))
    (if top then itemStart indent ordered (above.length + 1) ++ inner.1.dropWhile Text.isBlank
      else inner.1, top && above.isEmpty)

end Spot

section

variable {ordered : Bool} {texts : List String} {lead margin : List Char} {top : Bool}
variable (hne : texts ≠ []) (hplain : ∀ text ∈ texts, PlainLine text)

include hne hplain

/-- A container that a list stands in. -/
theorem Shows.container {indent : Int} {content : List Node}
    (h : Shows ordered texts lead margin top (Text.trim (layOut indent [] content)))
    (c : Container) :
    Shows ordered texts (c.mark ++ lead) (c.mark ++ margin) (top && c.isBare)
      ((c.node content).block indent) := by
  cases c with
  | quote =>
      rw [Container.isBare, Bool.and_true]
      exact h.quote hne hplain
  | semantic element => exact h.semantic (h.ne_nil hne hplain) element

variable (ordered) in
/-- A list by itself has the indentation of its level in front of every marker. -/
theorem shows_list (indent : Int) :
    Shows ordered texts (List.replicate (2 * indent.toNat) ' ')
      (List.replicate (2 * indent.toNat) ' ') true
      ((Node.list ordered (texts.map fun text => [.text text])).block indent) := by
  have hindent : '\n' ∉ List.replicate (2 * indent.toNat) ' ' := fun hmem =>
    absurd (List.eq_of_mem_replicate hmem) (by decide)
  -- An item of one plain line is its marker and that line.
  have hrows : ∀ number (texts : List String), (∀ text ∈ texts, PlainLine text) →
      itemLines indent ordered number (texts.map fun text => [.text text]) =
        markedRows (List.replicate (2 * indent.toNat) ' ') ordered number texts := by
    intro number texts hplain
    induction texts generalizing number with
    | nil => rfl
    | cons text rest ih =>
        have htext := hplain text List.mem_cons_self
        have hinner : Text.trim (layOut (indent + 1) [] [.text text]) = text.toList :=
          Text.trim_of_trimmed htext.trimmed
        rw [List.map_cons, itemLines,
          ih _ fun other hmem => hplain other (List.mem_cons_of_mem text hmem), hinner,
          itemLine_eq_append indent ordered number htext.filled, markedRows, itemStart,
          List.append_assoc _ [' '], List.singleton_append]
  have hlines : markedLines (List.replicate (2 * indent.toNat) ' ')
      (List.replicate (2 * indent.toNat) ' ') ordered texts =
        markedRows (List.replicate (2 * indent.toNat) ' ') ordered 1 texts := by
    cases texts with
    | nil => rfl
    | cons text rest => rfl
  refine ⟨⟨hindent, hindent⟩, [], [], ?_, fun c hc => absurd hc (Option.not_mem_none c),
    fun c hc => absurd hc (Option.not_mem_none c), rfl⟩
  rw [List.append_nil, List.nil_append, hlines, Node.block, hrows 1 texts hplain]

omit hne hplain

theorem Spot.isBlock_fill (spot : Spot) (list : Node) : (spot.fill list).isBlock = true := by
  cases spot with
  | only c => cases c <;> rfl
  | inside c front spot back => cases c <;> rfl
  | item ordered above front spot back below => rfl

theorem itemLines_append (indent : Int) (counted : Bool) (number : Nat)
    (above : List (List Node)) (item : List Node) (below : List (List Node)) :
    itemLines indent counted number (above ++ item :: below) =
      itemLines indent counted number above ++
        itemLine indent counted (number + above.length) (Text.trim (layOut (indent + 1) [] item)) ::
          itemLines indent counted (number + above.length + 1) below := by
  induction above generalizing number with
  | nil => rfl
  | cons first above ih =>
      rw [List.cons_append, itemLines, itemLines, ih, List.length_cons, List.cons_append,
        Nat.add_right_comm number, Nat.add_assoc number]

/-- Every item has a marker. -/
theorem exists_of_mem_itemLines (indent : Int) (counted : Bool) (number : Nat)
    (items : List (List Node)) :
    ∀ line ∈ itemLines indent counted number items, ∃ c ∈ line, Text.isBlank c = false := by
  induction items generalizing number with
  | nil => exact nofun
  | cons item items ih =>
      intro line hline
      rcases List.mem_cons.mp hline with rfl | hline
      -- Every line has its marker, which is not blank.
      · rcases itemMarker_eq_cons counted number with ⟨c, rest, hmarker, hc⟩
        have hmem : c ∈ List.replicate (2 * indent.toNat) ' ' ++ itemMarker counted number := by
          rw [hmarker]
          exact List.mem_append_right _ List.mem_cons_self
        refine ⟨c, ?_, hc⟩
        unfold itemLine
        simp only
        split
        · exact hmem
        · exact List.mem_append_left _ hmem
      · exact ih (number + 1) line hline

include hne hplain

variable (ordered) in
/-- Where a list stands in the block around it. The induction is on the place, from the list
    outwards. -/
theorem Spot.shows (indent : Int) (spot : Spot) :
    Shows ordered texts (spot.opening indent).1 (spot.margin indent) (spot.opening indent).2
      ((spot.fill (.list ordered (texts.map fun text => [.text text]))).block indent) := by
  induction spot generalizing indent with
  | only c =>
      have hlist := (shows_list ordered hne hplain indent).trim_layOut hne hplain rfl [] []
      -- The first item loses its indentation, since the container trims what is in it.
      have hnil : (List.replicate (2 * indent.toNat) ' ').dropWhile Text.isBlank = [] := by
        rw [Text.dropWhile_eq_nil_iff]
        intro c hc
        rw [List.eq_of_mem_replicate hc]
        decide
      rw [List.all_nil, Bool.and_true, if_pos rfl, hnil] at hlist
      have h := hlist.container hne hplain c
      rw [List.append_nil] at h
      exact h
  | inside c front spot back ih =>
      have hinner := (ih indent).trim_layOut hne hplain (spot.isBlock_fill _) front back
      exact hinner.container hne hplain c
  | item counted above front spot back below ih =>
      -- The item that leads to the list stands among its siblings, and only the first of them is at
      -- the top.
      have hitem := (ih (indent + 1)).trim_layOut hne hplain (spot.isBlock_fill _) front back
      have hline := hitem.item hne (hitem.ne_nil hne hplain) indent counted (1 + above.length)
      have hlist := hline.around (itemLines indent counted 1 above)
        (itemLines indent counted (1 + above.length + 1) below)
        (exists_of_mem_itemLines indent counted 1 above)
      have hempty : (itemLines indent counted 1 above).isEmpty = above.isEmpty := by
        cases above <;> rfl
      rw [← itemLines_append, hempty, Nat.add_comm 1] at hlist
      rw [Spot.opening, Spot.margin, Spot.fill, Node.block]
      simp only
      split at hlist
      · rename_i htop
        rw [if_pos htop]
        exact hlist
      · rename_i htop
        rw [if_neg htop]
        exact hlist

omit hne hplain

/-- Front matter ends with a line end, if there is any. -/
theorem atLineStart_frontMatter (mode : MetadataChoice) (nodes : List Node) :
    AtLineStart (frontMatter mode nodes) := by
  unfold frontMatter
  split
  · exact .of_getLast? (List.getLast?_append_of_ne_nil _ (by decide))
  · exact nofun

end

/-- Where the markers of a list stand that is the only child of a quote or a semantic element. The
    first one stands behind the opening of the place, and all others behind its margin, so they are
    aligned exactly when these have the same length. -/
theorem renderPage_list_columns (o : Options) (ho : o.WithoutNodeHooks) (indent : Int)
    (front : List Node) (spot : Spot) (back : List Node) (ordered : Bool) (texts : List String)
    (hne : texts ≠ []) (hplain : ∀ text ∈ texts, PlainLine text) :
    ∃ page above below,
      renderPage o indent
          (front ++ spot.fill (.list ordered (texts.map fun text => [.text text])) :: back) =
        .ok page ∧
      Text.splitOn '\n' page =
        above ++ markedLines (spot.opening indent).1 (spot.margin indent) ordered texts ++
          below := by
  have h := Spot.shows ordered hne hplain indent spot
  have hblock :
      (spot.fill (.list ordered (texts.map fun text => [.text text]))).ShowsBlock indent :=
    ⟨spot.isBlock_fill _, h.ne_nil hne hplain⟩
  rcases layOut_around hblock front back with ⟨before, after, hlaid, hbefore, _⟩
  rcases h.place with ⟨above, below, hwritten, habove, hbelow, _⟩
  -- Above the list are the front matter and what comes before, and they end with a line.
  have hmatter := atLineStart_frontMatter o.metadata
    (front ++ spot.fill (.list ordered (texts.map fun text => [.text text])) :: back)
  have hfilled := (endsFilled_markedLines ordered hne hplain (spot.opening indent).1
    (spot.margin indent)).append_left (frontMatter o.metadata
      (front ++ spot.fill (.list ordered (texts.map fun text => [.text text])) :: back) ++ before ++
        above)
  -- Trimming the page takes nothing of the list, which does not end blank.
  have htrim := hfilled.trimEnd_append (below ++ '\n' :: after)
  rcases splitOn_markedLines hne hplain h.single.1 h.single.2
    ((hmatter.append hbefore).append habove)
    (head?_append_trimEnd hbelow (t := '\n' :: after) fun c hc => (Option.some.inj hc).symm) with
    ⟨lines, others, hlines, _⟩
  refine ⟨_, lines, others, renderPage_unhooked ho indent _, ?_⟩
  rw [← hlines, ← htrim, hlaid, hwritten]
  simp only [List.append_assoc]

/-- An article in a quote, behind text in the second item of a list. The list in it stands at the
    first level, and its first item two columns to the left of the others. -/
theorem renderPage_list_columns_second_item :
    let spot : Spot :=
      .item true [[.text "w"]] [.text "x"]
        (.inside .quote [] (.only (.semantic "article")) []) [] []
    let texts := ["a", "b", "c"]
    let nodes : List Node :=
      [.text "p", spot.fill (.list true (texts.map fun text => [.text text]))]
    Options.default.WithoutNodeHooks ∧ texts ≠ [] ∧ (∀ text ∈ texts, PlainLine text) ∧
      markedLines (spot.opening 0).1 (spot.margin 0) true texts =
        ["> 1. a".toList, ">   2. b".toList, ">   3. c".toList] ∧
      ∃ page above below, renderPage Options.default 0 nodes = .ok page ∧
        Text.splitOn '\n' page =
          above ++ markedLines (spot.opening 0).1 (spot.margin 0) true texts ++ below := by
  intro spot texts nodes
  have hhooks : Options.default.WithoutNodeHooks := ⟨rfl, rfl⟩
  -- The list stands in an article in a quote, in the second item of another list.
  have hplain : ∀ text ∈ texts, PlainLine text := by decide
  exact ⟨hhooks, List.cons_ne_nil _ _, hplain, by decide +kernel,
    renderPage_list_columns Options.default hhooks 0 [.text "p"] spot [] true texts
      (List.cons_ne_nil _ _) hplain⟩

/-- Two items of a list in a quote behind the text of an item: their markers stand at the third and
    at the fifth column, as if the second item were below the first one. -/
theorem renderPage_items_misaligned :
    let list : Node := .list false [[.text "a"], [.text "b"]]
    let nodes : List Node := [.list false [[.text "x", .quote [list]]]]
    renderPage Options.default 0 nodes = .ok "- x\n> - a\n>   - b".toList ∧
      Text.splitOn '\n' "- x\n> - a\n>   - b".toList =
        ["- x".toList, "> - a".toList, ">   - b".toList] ∧
      "> - a".toList.idxOf '-' = 2 ∧ ">   - b".toList.idxOf '-' = 4 := by
  intro list nodes
  refine ⟨?_, by decide +kernel, by decide +kernel, by decide +kernel⟩
  rw [renderPage_unhooked ⟨rfl, rfl⟩]
  exact congrArg Except.ok (by decide +kernel)

end Markdown

end PageDistill
