import PageDistill.Markup.Reader
import PageDistill.Proofs.Dom.Descendants

/-!
# Attributes That Hold Lists

In a page that was read from a text, only attributes that hold words have lists for values.

The attributes of a tag are read one by one, and a value becomes a list when its attribute holds
words, by its name and that of the element. After that no tag is changed: the state of reading
takes tags over from tokens, puts elements together, and at the end brings down the strings between
them. A tag that is made up for an element which the page leaves out has no attributes at all.

So what holds of the tags of all tokens, and of tags without attributes, holds of all tags of the
page (`Progress.Holds`). The rest is about single tags: the address of a picture or a film is never
a list.

## Main definitions

* `WordLists`: A tag whose lists are lists of words.
* `tagsOf`, `AllTags`: The tags of nodes.
* `Token.Holds`, `Progress.Holds`: Tags in a token, and in the state of reading.

## Theorems

* `nextToken_holds`, `tokens_holds`: The tags of tokens.
* `Progress.Holds.take`, `Completing.take_holds`: What one token does to the state.
* `readNodes_holds`, `readPage_wordLists`: The tags of a page.
* `WordLists.filled?_src_ne_list`: Addresses.
-/

namespace PageDistill

namespace Dom

/-- The tags of the elements among nodes and below them. -/
def tagsOf (nodes : List Node) : List Tag := (elementsOf "" .ordinary nodes).map Element.tag

/-- A statement about tags that holds of all those among nodes. -/
def AllTags (p : Tag → Prop) (nodes : List Node) : Prop := ∀ tag ∈ tagsOf nodes, p tag

section

variable {p : Tag → Prop} {node : Node} {nodes : List Node}

theorem tagsOf_append (front back : List Node) :
    tagsOf (front ++ back) = tagsOf front ++ tagsOf back := by
  unfold tagsOf
  rw [elementsOf_eq_flatMap, elementsOf_eq_flatMap, elementsOf_eq_flatMap, List.flatMap_append,
    List.map_append]

theorem tagsOf_cons (node : Node) (nodes : List Node) :
    tagsOf (node :: nodes) = tagsOf [node] ++ tagsOf nodes :=
  tagsOf_append [node] nodes

theorem tagsOf_element (tag : Tag) (children : List Node) :
    tagsOf [.element tag children] = tag :: tagsOf children := by
  unfold tagsOf
  rw [elementsOf, elementsOf, List.append_nil, Node.elements, List.map_cons,
    map_tag_elementsOf tag.name "" _ .ordinary children]

theorem allTags_cons : AllTags p (node :: nodes) ↔ AllTags p [node] ∧ AllTags p nodes := by
  unfold AllTags
  rw [tagsOf_cons, List.forall_mem_append]

theorem allTags_element {tag : Tag} : AllTags p [.element tag nodes] ↔ p tag ∧ AllTags p nodes := by
  unfold AllTags
  rw [tagsOf_element, List.forall_mem_cons]

theorem allTags_nil : AllTags p [] := fun _ htag => absurd htag List.not_mem_nil

theorem allTags_text (content : String) : AllTags p [.text content] := allTags_nil

/-- The order of nodes has no part in it. -/
theorem allTags_reverse (h : AllTags p nodes) : AllTags p nodes.reverse := by
  induction nodes with
  | nil => exact h
  | cons node nodes ih =>
      rw [allTags_cons] at h
      unfold AllTags
      rw [List.reverse_cons, tagsOf_append]
      exact List.forall_mem_append.mpr ⟨ih h.2, h.1⟩

end

end Dom

namespace Markup

open Dom (Tag AllTags)

/-- A tag that has lists only for attributes which hold words. -/
def WordLists (tag : Tag) : Prop :=
  ∀ entry ∈ tag.attrs, ∀ items, entry.2 = .list items → holdsWords tag.name entry.1 = true

/-- A statement about tags that holds of the tag of a token, if it has one. -/
def Token.Holds (p : Tag → Prop) : Token → Prop
  | .startTag name attrs _ => p ⟨name, attrs⟩
  | _ => True

/-- A statement about tags that holds of all tags in the state of reading. -/
structure Progress.Holds (p : Tag → Prop) (s : Progress) : Prop where
  top : AllTags p s.top
  opened : ∀ o ∈ s.opened, p o.tag ∧ AllTags p o.nodes

section

variable {p : Tag → Prop}

/-- One more node with such tags leaves a list of such nodes. -/
theorem pushNode_holds {node : Dom.Node} {before : List Dom.Node} (hnode : AllTags p [node])
    (hbefore : AllTags p before) : AllTags p (pushNode node before) := by
  unfold pushNode
  split
  · exact Dom.allTags_cons.mpr ⟨Dom.allTags_text _, (Dom.allTags_cons.mp hbefore).2⟩
  · exact Dom.allTags_cons.mpr ⟨hnode, hbefore⟩

namespace Progress.Holds

variable {s : Progress}

/-- A node with such tags may be added. -/
theorem add (h : s.Holds p) {node : Dom.Node} (hnode : AllTags p [node]) :
    (s.add node).Holds p := by
  have hopened := h.opened
  unfold Progress.add
  cases hs : s.opened with
  | nil => exact ⟨pushNode_holds hnode h.top, fun _ ho => absurd ho List.not_mem_nil⟩
  | cons inner outer =>
      rw [hs] at hopened
      rcases List.forall_mem_cons.mp hopened with ⟨hinner, houter⟩
      exact ⟨h.top, List.forall_mem_cons.mpr
        ⟨⟨hinner.1, pushNode_holds hnode hinner.2⟩, houter⟩⟩

theorem push (h : s.Holds p) {tag : Tag} (htag : p tag) : (s.push tag).Holds p :=
  ⟨h.top, List.forall_mem_cons.mpr ⟨⟨htag, Dom.allTags_nil⟩, h.opened⟩⟩

theorem addText (h : s.Holds p) (content : List Char) : (s.addText content).Holds p := by
  unfold Progress.addText
  split
  · exact h
  · exact h.add (Dom.allTags_text _)

/-- An element that is closed becomes a node of the one around it. -/
theorem close (h : s.Holds p) (n : Nat) : (s.close n).Holds p := by
  induction n generalizing s with
  | zero => exact h
  | succ n ih =>
      have hopened := h.opened
      unfold Progress.close
      cases hs : s.opened with
      | nil => exact h
      | cons inner outer =>
          rw [hs] at hopened
          rcases List.forall_mem_cons.mp hopened with ⟨hinner, houter⟩
          have houtside : ({ s with opened := outer } : Progress).Holds p := ⟨h.top, houter⟩
          exact ih (houtside.add (Dom.allTags_element.mpr
            ⟨hinner.1, Dom.allTags_reverse hinner.2⟩))

/-- So all tags of the finished page are such tags. -/
theorem finish (h : s.Holds p) : AllTags p s.finish := Dom.allTags_reverse (h.close _).top

/-- A token adds no tags but its own. -/
theorem take (h : s.Holds p) {token : Token} (htoken : token.Holds p) :
    (s.take token).Holds p := by
  unfold Progress.take
  cases token with
  | startTag name attrs isClosed =>
      simp only
      split
      · exact h.add (Dom.allTags_element.mpr ⟨htoken, Dom.allTags_nil⟩)
      · exact h.push htoken
  | endTag name =>
      simp only [Progress.endTag]
      split
      · exact h.close _
      · exact h
  | text content => exact h.addText content
  | special kind content => exact h.add Dom.allTags_nil

end Progress.Holds

namespace Completing

variable {c : Completing} (hbare : ∀ name, p ⟨name, []⟩)

include hbare

theorem implyRoot_holds (h : c.progress.Holds p) : c.implyRoot.progress.Holds p := by
  unfold implyRoot
  split
  · exact h.push (hbare "html")
  · exact h

theorem implyPart_holds (h : c.progress.Holds p) (name : String) :
    (c.implyPart name).progress.Holds p := by
  unfold implyPart
  split
  · split
    · exact h
    · exact h.push (hbare "head")
  · split
    · exact h
    · exact h.push (hbare "body")

theorem imply_holds (h : c.progress.Holds p) (name : String) :
    (c.imply name).progress.Holds p := by
  unfold imply
  split
  · exact h
  · split
    · exact implyRoot_holds hbare h
    · exact implyPart_holds hbare (implyRoot_holds hbare h) name

/-- What happens before an element begins. -/
theorem prepared_holds (h : c.progress.Holds p) (name : String) :
    ((c.makeRoom name).imply name).progress.Holds p :=
  imply_holds hbare (h.close _) name

/-- A start tag brings its own tag, and the tags that it implies. -/
theorem startTag_holds (h : c.progress.Holds p) {tag : Tag} (htag : p tag) (isClosed : Bool) :
    (c.startTag tag isClosed).progress.Holds p := by
  have hprepared := prepared_holds hbare h tag.name
  unfold startTag
  simp only
  split
  · exact hprepared
  · split
    · exact (hprepared.push htag).close 1
    · exact hprepared.push htag

theorem text_holds (h : c.progress.Holds p) (content : List Char) :
    (c.text content).progress.Holds p := by
  have hblank : ∀ blank,
      ({ c with progress := c.progress.addText blank } : Completing).progress.Holds p :=
    fun blank => h.addText blank
  unfold text
  refine Progress.Holds.addText ?_ _
  by_cases hinside : (c.names.head?.any fun inner => inner != "html" && inner != "head") = true ∨
      (content.drop (if (c.names.head?.any fun inner => inner != "html" && inner != "head") = true
        then [] else content.takeWhile isMarkupBlank).length).isEmpty = true
  · rw [if_pos hinside]
    exact hblank _
  · rw [if_neg hinside]
    exact prepared_holds hbare (hblank _) "p"

omit hbare in
/-- An end tag brings none. -/
theorem endTag_holds (h : c.progress.Holds p) (name : String) :
    (c.endTag name).progress.Holds p := by
  unfold endTag
  split
  · exact h
  · split
    · exact h
    · split
      · exact h
      · exact h.close _

/-- A token adds no tags but its own and those that are made up. -/
theorem take_holds (h : c.progress.Holds p) {token : Token} (htoken : token.Holds p) :
    (c.take token).progress.Holds p := by
  unfold take
  cases token with
  | startTag name attrs isClosed => exact startTag_holds hbare h htoken isClosed
  | endTag name => exact endTag_holds h name
  | text content => exact text_holds hbare h content
  | special kind content => exact h.add Dom.allTags_nil

end Completing

end

section

variable {completion : Completion} {element : String}

/-- An attribute that is read is a list only if it holds words. -/
theorem attrValue_wordList (element name : String) (value : List Char) :
    ∀ items, attrValue element name value = .list items → holdsWords element name = true := by
  intro items h
  unfold attrValue at h
  split at h
  · assumption
  · exact nomatch h

theorem put_wordLists {attrs : List (String × Dom.AttrValue)} (h : WordLists ⟨element, attrs⟩)
    (name : String) (value : Dom.AttrValue)
    (hvalue : ∀ items, value = .list items → holdsWords element name = true) :
    WordLists ⟨element, Entries.put attrs name value⟩ := by
  unfold WordLists at h ⊢
  simp only at h ⊢
  induction attrs with
  | nil => exact List.forall_mem_singleton.mpr hvalue
  | cons entry rest ih =>
      rcases List.forall_mem_cons.mp h with ⟨hentry, hrest⟩
      unfold Entries.put
      by_cases hkey : entry.1 = name
      · rw [if_pos hkey]
        refine List.forall_mem_cons.mpr ⟨fun items hitems => ?_, hrest⟩
        rw [hkey]
        exact hvalue items hitems
      · rw [if_neg hkey]
        exact List.forall_mem_cons.mpr ⟨hentry, ih hrest⟩

/-- A reader adds lists for attributes of words only. -/
theorem addAttr_wordLists {attrs : List (String × Dom.AttrValue)} (h : WordLists ⟨element, attrs⟩)
    (name : String) (value : Dom.AttrValue)
    (hvalue : ∀ items, value = .list items → holdsWords element name = true) :
    WordLists ⟨element, addAttr completion attrs name value⟩ := by
  cases completion with
  | asWritten => exact put_wordLists h name value hvalue
  | completed =>
      unfold addAttr
      simp only
      split
      · exact h
      · exact List.forall_mem_append.mpr ⟨h, List.forall_mem_singleton.mpr hvalue⟩

theorem readAttrs_wordLists (fuel : Nat) {attrs : List (String × Dom.AttrValue)}
    (h : WordLists ⟨element, attrs⟩) (s : List Char) :
    WordLists ⟨element, (readAttrs completion element fuel attrs s).1⟩ := by
  fun_induction readAttrs completion element fuel attrs s with
  | case1 => exact h
  | case2 => exact h
  | case3 => exact h
  | case4 => exact h
  | case5 _ _ _ _ _ _ ih => exact ih h
  | case6 =>
    rename_i ih
    exact ih (addAttr_wordLists h _ _ (attrValue_wordList element _ _))
  | case7 =>
    rename_i ih
    exact ih (addAttr_wordLists h _ _ (attrValue_wordList element _ _))

/-- The other readers of tokens make no start tags. -/
theorem declarationToken_holds (p : Dom.Tag → Prop) (completion : Completion)
    (content : List Char) : (declarationToken completion content).Holds p := by
  unfold declarationToken
  split
  · split <;> exact True.intro
  · exact True.intro

theorem readEndTag_holds (p : Dom.Tag → Prop) (completion : Completion) (s : List Char) :
    (readEndTag completion s).1.Holds p := by
  unfold readEndTag
  cases completion
  all_goals
    simp only
    split
    · exact True.intro
    · split <;> exact True.intro

theorem readInstruction_holds (p : Dom.Tag → Prop) (completion : Completion) (s : List Char) :
    (readInstruction completion s).1.Holds p := by
  cases completion <;> exact True.intro

/-- The tag of the next token has lists only for attributes that hold words. -/
theorem nextToken_holds (completion : Completion) (fuel : Nat) (s : List Char) :
    (nextToken completion fuel s).1.Holds WordLists := by
  unfold nextToken
  split
  · exact True.intro
  · exact declarationToken_holds WordLists completion _
  · exact readInstruction_holds WordLists completion _
  · exact readEndTag_holds WordLists completion _
  · split
    · exact readAttrs_wordLists fuel (fun _ hentry => absurd hentry List.not_mem_nil) _
    · exact True.intro
  · exact True.intro

/-- And so have the tags of all tokens. -/
theorem tokens_holds (completion : Completion) (s : List Char) :
    ∀ token ∈ tokens completion s, token.Holds WordLists := by
  unfold tokens
  generalize s.length = fuel
  induction fuel generalizing s with
  | zero => exact fun _ htoken => absurd htoken List.not_mem_nil
  | succ fuel ih =>
      cases s with
      | nil => exact fun _ htoken => absurd htoken List.not_mem_nil
      | cons c rest =>
          have hnext := nextToken_holds completion (fuel + 1) (c :: rest)
          unfold tokensWithin
          -- An element that closes itself gives two tokens, any other markup one.
          split
          · rename_i hstart
            rw [hstart] at hnext
            split
            · exact List.forall_mem_cons.mpr ⟨hnext, List.forall_mem_cons.mpr ⟨True.intro, ih _⟩⟩
            · exact List.forall_mem_cons.mpr ⟨hnext, ih _⟩
          · rename_i htoken
            rw [htoken] at hnext
            exact List.forall_mem_cons.mpr ⟨hnext, ih _⟩

end

section

variable {p : Tag → Prop}

-- Bringing down the strings between elements leaves the tags alone.
mutual

theorem tagsOf_collapseNode (keep : Bool) (node : Dom.Node) :
    Dom.tagsOf [collapseNode keep node] = Dom.tagsOf [node] := by
  cases node with
  | text content => rfl
  | special kind content => rfl
  | element tag children =>
      rw [collapseNode, Dom.tagsOf_element, Dom.tagsOf_element, tagsOf_collapseBlank _ children]

/-- Collapsing blank text leaves the tags as they are. -/
theorem tagsOf_collapseBlank (keep : Bool) (nodes : List Dom.Node) :
    Dom.tagsOf (collapseBlank keep nodes) = Dom.tagsOf nodes := by
  cases nodes with
  | nil => rfl
  | cons node nodes =>
      rw [collapseBlank, Dom.tagsOf_cons, Dom.tagsOf_cons node, tagsOf_collapseNode keep node,
        tagsOf_collapseBlank keep nodes]

end

/-- What holds of the tags of all tokens, and of tags without attributes, holds of the tags of a
    page. -/
theorem readNodes_holds (hbare : ∀ name, p ⟨name, []⟩)
    (htokens : ∀ completion s, ∀ token ∈ tokens completion s, token.Holds p)
    (completion : Completion) (s : List Char) : AllTags p (readNodes completion s) := by
  unfold readNodes
  cases completion with
  | asWritten =>
      have hstart : (⟨[], []⟩ : Progress).Holds p :=
        ⟨Dom.allTags_nil, fun _ ho => absurd ho List.not_mem_nil⟩
      exact (List.foldlRecOn (motive := fun (progress : Progress) => progress.Holds p) _ _ hstart
        fun _ h token htoken => h.take (htokens _ _ token htoken)).finish
  | completed =>
      have hstart : (⟨[], []⟩ : Progress).Holds p :=
        ⟨Dom.allTags_nil, fun _ ho => absurd ho List.not_mem_nil⟩
      exact (List.foldlRecOn (motive := fun (c : Completing) => c.progress.Holds p) _ _ hstart
        fun _ h token htoken => Completing.take_holds hbare h (htokens _ _ token htoken)).finish

/-- In a page that is read from a text, only attributes that hold words have lists for values. -/
theorem readPage_wordLists (completion : Completion) (s : List Char) :
    ∀ d ∈ (readPage completion s).root.descendants, WordLists d.tag := by
  have hnodes := readNodes_holds (fun _ _ hentry => absurd hentry List.not_mem_nil) tokens_holds
    completion s
  intro d hd
  refine hnodes d.tag ?_
  rw [← tagsOf_collapseBlank false]
  unfold Dom.tagsOf
  rw [Dom.map_tag_elementsOf "" "[document]" .ordinary .ordinary]
  exact List.mem_map_of_mem hd

end

/-- Addresses are no lists of words. -/
theorem holdsWords_src (element : String) : holdsWords element "src" = false := by
  unfold holdsWords
  have hnone : ∀ entry ∈ wordListAttrsOf, entry.2.contains "src" = false := by decide
  cases hlookup : Entries.lookup? wordListAttrsOf element with
  | none => rfl
  | some names => exact hnone _ (Entries.mem_of_lookup? _ _ _ hlookup)

/-- So the address of a tag that was read is a text. -/
theorem WordLists.filled?_src_ne_list {tag : Tag} (h : WordLists tag) (items : List String) :
    tag.filled? "src" ≠ some (.list items) := by
  intro hfilled
  rcases Option.bind_eq_some_iff.mp hfilled with ⟨value, hvalue, hfilled⟩
  have hlist : value = .list items := by
    split at hfilled
    · exact nomatch hfilled
    · exact Option.some.inj hfilled
  have hwords := h _ (Entries.mem_of_lookup? _ _ _ hvalue) items hlist
  rw [holdsWords_src] at hwords
  exact nomatch hwords

end Markup

end PageDistill
