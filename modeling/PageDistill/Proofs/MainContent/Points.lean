import Mathlib.Data.List.Flatten
import PageDistill.MainContent.Score
import PageDistill.Proofs.Dom.Descendants
import PageDistill.Proofs.Text.Trimmed

/-!
# Bounds and Growth of the Score

The score of an element is at most ninety, and more content does not lower it.

Every feature has its own greatest number of points, so the bound is a sum. For the growth each
feature is looked at by itself, too. More text outside of links makes the text of an element longer
and leaves the text of its links as it was, so the share of links does not grow. What has to be
said with care is how long the trimmed text is: new text may well be blank, and it may be trimmed
away itself, but what was left after trimming before is still left (`Text.trim_sublist_trim`).

A string may be added at any place that is not inside a link. It may also be a comment, or stand
where text has a role of its own; then it may not count as text of the element at all.

## Main definitions

* `StringAdded`: Nodes with one string more, outside of links.
* `Dom.Element.withClasses`: An element with other class names.
* `TellsNames`: The names of content among the class names of an element.

## Theorems

* `score_le_ninety`: The greatest score.
* `score_withClasses`: A name of content more among the class names makes ten points more.
* `score_le_of_stringAdded`: A string more outside of links does not make points less.
* `score_bounded_growing`: All three of them.
-/

namespace PageDistill

namespace Dom

/-- An element with other class names. -/
def Element.withClasses (e : Element) (names : List String) : Element :=
  { e with tag := { e.tag with attrs := Entries.put e.tag.attrs "class" (.list names) } }

/-- The second list of nodes has one string more than the first. It stands somewhere among the nodes
    or below them, but not below a link. -/
inductive StringAdded : List Node → List Node → Prop
  | here (node : Node) (nodes : List Node) (hstring : node.string?.isSome) :
      StringAdded nodes (node :: nodes)
  | later (node : Node) {nodes nodes' : List Node} (h : StringAdded nodes nodes') :
      StringAdded (node :: nodes) (node :: nodes')
  | inside (tag : Tag) (nodes : List Node) {children children' : List Node}
      (hlink : tag.name ≠ "a") (h : StringAdded children children') :
      StringAdded (.element tag children :: nodes) (.element tag children' :: nodes)

theorem hasClass_withClasses (e : Element) (names : List String) (name : String) :
    (e.withClasses names).tag.hasClass name = names.contains name := by
  rw [Tag.hasClass, Tag.attr?, Element.withClasses, Entries.lookup?_put_self]

theorem attr?_withClasses (e : Element) (names : List String) (name : String)
    (h : name ≠ "class") : (e.withClasses names).tag.attr? name = e.tag.attr? name :=
  Entries.lookup?_put_of_ne e.tag.attrs "class" name _ h

namespace StringAdded

variable {nodes nodes' : List Node}

/-- The strings are those that were there and the new one. -/
theorem stringsOf_sublist (h : StringAdded nodes nodes') (role : TextRole) :
    (stringsOf role nodes).Sublist (stringsOf role nodes') := by
  induction h generalizing role with
  | here node nodes _ => exact List.sublist_append_right _ _
  | later node h ih => exact (List.Sublist.refl _).append (ih role)
  | inside tag nodes hlink h ih => exact (ih (role.within tag.name)).append (List.Sublist.refl _)

/-- A string is no element, and none of the elements that it is put into is a link. -/
theorem links_eq (h : StringAdded nodes nodes') (parent : String) (role : TextRole) :
    (elementsOf parent role nodes').filter (fun d => d.name == "a") =
      (elementsOf parent role nodes).filter fun d => d.name == "a" := by
  induction h generalizing parent role with
  | here node nodes hstring =>
      rw [elementsOf]
      cases node with
      | element tag children => exact absurd hstring Bool.false_ne_true
      | text content => rfl
      | special kind content => rfl
  | later node h ih => rw [elementsOf, elementsOf, List.filter_append, List.filter_append, ih]
  | inside tag nodes hlink h ih =>
      -- The string is not added in a link, and the element around it is none.
      have hother : ∀ children,
          ((⟨parent, role, tag, children⟩ : Element).name == "a") = false := by
        intro children
        exact beq_eq_false_iff_ne.mpr hlink
      rw [elementsOf, elementsOf, List.filter_append, List.filter_append, Node.elements,
        Node.elements, List.filter_cons_of_neg (by rw [hother]; exact Bool.false_ne_true),
        List.filter_cons_of_neg (by rw [hother]; exact Bool.false_ne_true), ih]

theorem tags_eq (h : StringAdded nodes nodes') (parent : String) (role : TextRole) :
    (elementsOf parent role nodes').map Element.tag =
      (elementsOf parent role nodes).map Element.tag := by
  induction h generalizing parent role with
  | here node nodes hstring =>
      rw [elementsOf]
      cases node with
      | element tag children => exact absurd hstring Bool.false_ne_true
      | text content => rfl
      | special kind content => rfl
  | later node h ih => rw [elementsOf, elementsOf, List.map_append, List.map_append, ih]
  | inside tag nodes hlink h ih =>
      rw [elementsOf, elementsOf, List.map_append, List.map_append, Node.elements, Node.elements,
        List.map_cons, List.map_cons, ih]

end StringAdded

/-- How many elements have a name is a question about the tags. -/
theorem length_named (e : Element) (name : String) :
    (e.named name).length = (e.descendants.map Element.tag).countP fun tag => tag.name == name := by
  rw [Element.named, ← List.countP_eq_length_filter, List.countP_map]
  rfl

/-- What an element says grows with its strings. -/
theorem text_sublist_of_strings {e e' : Element} (hname : e'.name = e.name)
    (h : (stringsOf e.innerRole e.nodes).Sublist (stringsOf e'.innerRole e'.nodes)) :
    e.text.Sublist e'.text := by
  have hholds : e'.holds = e.holds := by
    funext kind
    rw [Element.holds, Element.holds, hname]
  unfold Element.text Element.strings
  rw [hholds]
  exact ((h.filter _).map _).flatten

end Dom

namespace MainContent

/-- Of the names of content an element has those in a list as its class names, whether its class
    attribute is such a list, is missing, or is a text in which the names occur. -/
def TellsNames (e : Dom.Element) (names : List String) : Prop :=
  ∀ name ∈ contentNames, e.tag.hasClass name = names.contains name

theorem namePoints_le (e : Dom.Element) : namePoints e ≤ 50 := by
  have hle := List.length_filter_le
    (fun name => e.tag.hasClass name || e.tag.text? "id" == some name) contentNames
  have hlength : contentNames.length = 5 := rfl
  unfold namePoints
  dsimp only
  omega

theorem lengthPoints_le (e : Dom.Element) : lengthPoints e ≤ 5 := by
  unfold lengthPoints
  dsimp only
  split
  · exact Nat.min_le_right _ _
  · omega

theorem rolePoints_le (e : Dom.Element) : rolePoints e ≤ 10 := by
  unfold rolePoints
  split
  · split <;> omega
  · omega

/-- No score is above ninety. -/
theorem score_le_ninety (e : Dom.Element) : score e ≤ 90 := by
  have hnames := namePoints_le e
  have helement : elementPoints e ≤ 5 := by
    unfold elementPoints
    split <;> omega
  have hparagraphs : paragraphPoints e ≤ 5 := Nat.min_le_right _ _
  have hlength := lengthPoints_le e
  have hlinks : linkPoints e ≤ 5 := by
    unfold linkPoints
    split <;> omega
  have hattributes : attributePoints e ≤ 10 := by
    unfold attributePoints
    split <;> omega
  have hrole := rolePoints_le e
  unfold score
  omega

/-- One member of a list without repetitions more has the property. -/
theorem countP_or_eq {l : List String} (hnodup : l.Nodup) (p : String → Bool) {k : String}
    (hk : k ∈ l) (hp : p k = false) :
    l.countP (fun a => p a || a == k) = l.countP p + 1 := by
  induction l with
  | nil => exact absurd hk List.not_mem_nil
  | cons a rest ih =>
      rcases List.nodup_cons.mp hnodup with ⟨hnot, hrest⟩
      rw [List.countP_cons, List.countP_cons]
      by_cases ha : a = k
      -- The key occurs only once, so the rest is counted as before.
      · have hothers : rest.countP (fun b => p b || b == k) = rest.countP p := by
          refine List.countP_congr fun b hb => ?_
          have hne : b ≠ k := by
            rintro rfl
            exact hnot (ha ▸ hb)
          rw [beq_eq_false_iff_ne.mpr hne, Bool.or_false]
        rw [hothers, ha, hp]
        simp
      · have hmem : k ∈ rest := (List.mem_cons.mp hk).resolve_left (Ne.symm ha)
        rw [ih hrest hmem, beq_eq_false_iff_ne.mpr ha, Bool.or_false]
        omega

/-- A name of content that is put among the class names, and was not there and is not the id, makes
    ten points more. -/
theorem score_withClasses (e : Dom.Element) (before after : List String) (name : String)
    (hclasses : TellsNames e (before ++ after)) (hname : name ∈ contentNames)
    (hnew : name ∉ before ++ after) (hid : e.tag.text? "id" ≠ some name) :
    score (e.withClasses (before ++ name :: after)) = score e + 10 := by
  have hattr := Dom.attr?_withClasses e (before ++ name :: after)
  have htext : ∀ key, key ≠ "class" →
      (e.withClasses (before ++ name :: after)).tag.text? key = e.tag.text? key := by
    intro key hkey
    rw [Dom.Tag.text?, hattr key hkey, Dom.Tag.text?]
  have hnames : namePoints (e.withClasses (before ++ name :: after)) = namePoints e + 10 := by
    have hold : (e.tag.hasClass name || e.tag.text? "id" == some name) = false := by
      rw [hclasses name hname, List.contains_eq_mem, decide_eq_false hnew,
        beq_eq_false_iff_ne.mpr hid]
      rfl
    have hcount := countP_or_eq (by decide : contentNames.Nodup)
      (fun other => e.tag.hasClass other || e.tag.text? "id" == some other) hname hold
    have hhits : ∀ other ∈ contentNames,
        ((e.withClasses (before ++ name :: after)).tag.hasClass other ||
          (e.withClasses (before ++ name :: after)).tag.text? "id" == some other) =
        ((e.tag.hasClass other || e.tag.text? "id" == some other) || other == name) := by
      intro other hother
      rw [Dom.hasClass_withClasses, htext "id" (by decide), hclasses other hother]
      simp only [List.contains_eq_mem, List.mem_append, List.mem_cons]
      by_cases hother : other = name
      · simp [hother]
      · simp [hother]
    unfold namePoints
    dsimp only
    rw [← List.countP_eq_length_filter, ← List.countP_eq_length_filter,
      List.countP_congr fun other hmem => by rw [hhits other hmem], hcount]
    omega
  have hattributes : attributePoints (e.withClasses (before ++ name :: after)) =
      attributePoints e := by
    unfold attributePoints Dom.Tag.hasAttr
    rw [hattr "data-main" (by decide), hattr "data-content" (by decide)]
  have hrole : rolePoints (e.withClasses (before ++ name :: after)) = rolePoints e := by
    rw [rolePoints, htext "role" (by decide), rolePoints]
  -- The other features are about the name of the element and what is below it.
  have hother : elementPoints (e.withClasses (before ++ name :: after)) = elementPoints e ∧
      paragraphPoints (e.withClasses (before ++ name :: after)) = paragraphPoints e ∧
      lengthPoints (e.withClasses (before ++ name :: after)) = lengthPoints e ∧
      linkPoints (e.withClasses (before ++ name :: after)) = linkPoints e := ⟨rfl, rfl, rfl, rfl⟩
  rcases hother with ⟨helement, hparagraphs, hlength, hlinks⟩
  unfold score
  rw [hnames, hattributes, hrole, helement, hparagraphs, hlength, hlinks]
  omega

/-- A string more outside of links does not make points less. -/
theorem score_le_of_stringAdded (e : Dom.Element) (nodes : List Dom.Node)
    (h : Dom.StringAdded e.nodes nodes) : score e ≤ score { e with nodes := nodes } := by
  have htext : e.text.Sublist ({ e with nodes := nodes } : Dom.Element).text :=
    Dom.text_sublist_of_strings rfl (h.stringsOf_sublist e.innerRole)
  have hlonger := htext.length_le
  -- The elements stay what they are, so only the points for text can change.
  have hparagraphs : paragraphPoints { e with nodes := nodes } = paragraphPoints e := by
    rw [paragraphPoints, paragraphPoints, Dom.length_named, Dom.length_named]
    change min (((Dom.elementsOf e.name e.innerRole nodes).map Dom.Element.tag).countP _) 5 = _
    rw [h.tags_eq]
    rfl
  have hlinkLength : linkLength { e with nodes := nodes } = linkLength e := by
    unfold linkLength Dom.Element.named
    change ((Dom.elementsOf e.name e.innerRole nodes).filter _).foldr _ 0 = _
    rw [h.links_eq]
    rfl
  have hlength : lengthPoints e ≤ lengthPoints { e with nodes := nodes } := by
    have htrimmed := (Text.trim_sublist_trim htext).length_le
    have hdiv := Nat.div_le_div_right htrimmed (c := 200)
    unfold lengthPoints
    dsimp only
    split
    · rw [if_pos (by omega)]
      omega
    · exact Nat.zero_le _
  -- More text beside the same links makes their share no greater.
  have hlinks : linkPoints e ≤ linkPoints { e with nodes := nodes } := by
    unfold linkPoints hasFewLinks textLength
    rw [hlinkLength]
    split
    · next hfew =>
      simp only [decide_eq_true_eq] at hfew
      exact Nat.le_of_eq (if_pos (by simp only [decide_eq_true_eq]; omega)).symm
    · exact Nat.zero_le _
  have hsame : namePoints { e with nodes := nodes } = namePoints e ∧
      elementPoints { e with nodes := nodes } = elementPoints e ∧
      attributePoints { e with nodes := nodes } = attributePoints e ∧
      rolePoints { e with nodes := nodes } = rolePoints e := ⟨rfl, rfl, rfl, rfl⟩
  rcases hsame with ⟨hnames, helement, hattributes, hrole⟩
  unfold score
  rw [hnames, helement, hattributes, hrole, hparagraphs]
  omega

/-- The score is bounded, and it grows with the signs of content: no score is above ninety; a name
    of content that comes new to the class names, at any place among them, makes exactly ten points
    more; and a string more at any place that is not inside a link does not make points less. -/
theorem score_bounded_growing (e : Dom.Element) :
    score e ≤ 90 ∧
      (∀ before after name, TellsNames e (before ++ after) → name ∈ contentNames →
        name ∉ before ++ after → e.tag.text? "id" ≠ some name →
        score (e.withClasses (before ++ name :: after)) = score e + 10) ∧
      ∀ nodes, Dom.StringAdded e.nodes nodes → score e ≤ score { e with nodes := nodes } :=
  ⟨score_le_ninety e, score_withClasses e, score_le_of_stringAdded e⟩

/-- An element with a paragraph and a link, nearly all of its text in the link. Its id is a name of
    content, which as a class name would make no difference. -/
theorem score_bounded_growing_linked :
    let link : Dom.Node := .element ⟨"a", [("href", .text "u")]⟩ [.text "read on"]
    let paragraph : List Dom.Node → Dom.Node := .element ⟨"p", []⟩
    let e : Dom.Element :=
      ⟨"body", .ordinary, ⟨"div", [("class", .list ["wide", "article"]), ("id", .text "main")]⟩,
        [paragraph [link], .text "!"]⟩
    score (e.withClasses ["wide", "content", "article"]) = score e + 10 ∧
      score e ≤
        score { e with nodes := [paragraph [.text "And more, and more: ", link], .text "!"] } ∧
      score e = 21 := by
  intro link paragraph e
  rcases score_bounded_growing e with ⟨_, hname, hstring⟩
  refine ⟨?_, ?_, by decide⟩
  · exact hname ["wide"] ["article"] "content" (fun _ _ => rfl) (by decide) (by decide) (by decide)
  · refine hstring _ (.inside _ _ (by decide) (.here _ _ rfl))

end MainContent

end PageDistill
