import PageDistill.Proofs.Lower.Rules
import PageDistill.Proofs.Lower.Transparent

/-!
# A Limit That Is Not Reached

A page that is not nested too deep for two limits is lowered alike under both, and no warning says
that an element was flattened.

The levels do not go down with the page step by step. A cell or an item takes one level, however
many elements lie between it and its table or its list, and an element with text alone may take
none. So the levels that are left are never less than the nesting that is left, and often more. It
is enough that each rule asks the descent for the element itself or for elements below it, and for
nothing else.

The outcomes are the same because `lowerLevels_wrapped` holds of a page without a wrapper. The notes
are followed by a look at each rule, for any kind of notes that has all decisions in it and the
warning about structured data (`lowerElement_notes`).

## Main definitions

* `Note.IsFlattening`: The warning that an element was flattened to its text.

## Theorems

* `lowerElement_notes`: The notes of a rule are those of the descent and its own.
* `lowerLevels_notes`, `lower_notes`: With enough levels nothing is flattened.
* `lower_result_eq`: The outcome under two limits that are not reached.
* `lower_limit_unseen`: Two limits that are not reached give the same tree, without a warning.
-/

namespace PageDistill

open Markdown (Node Cell)

/-- The warning that an element was flattened to its text. -/
def Note.IsFlattening (note : Note) : Prop :=
  note.severity = .warning ∧ "Nesting deeper than ".toList <+: note.message.toList

instance (note : Note) : Decidable note.IsFlattening :=
  inferInstanceAs (Decidable (_ ∧ _))

section

variable {o : Options} {lower : Descent} {kind : Note → Prop}
variable (hdebug : ∀ message, kind ⟨.debug, message⟩)
variable (hmalformed : kind ⟨.warning, "Skipping malformed JSON-LD block"⟩)

/-- Addresses are made relative without a note. -/
theorem relativize_notes (url : String) : (relativize o url).Notes kind := by
  unfold relativize
  match o.websiteDomain with
  | none => exact Traced.Notes.pure _
  | some (.text _) => exact Traced.Notes.pure _
  | some (.notText _) => exact Traced.Notes.fail _

theorem columnMark_notes (position : Nat) : (columnMark o position).Notes kind := by
  unfold columnMark
  split
  · split
    · exact Traced.Notes.pure _
    · exact Traced.Notes.fail _
  · exact Traced.Notes.pure _

/-- The notes of a link are those of its contents. -/
theorem lowerLink_notes {indent : Int} {e : Dom.Element} (hlow : (lower indent e).Notes kind) :
    (lowerLink o lower indent e).Notes kind := by
  have hlink : ∀ href, ((lower indent e >>= fun nodes => pure (.link href nodes)) :
      Conversion Node).Notes kind := fun _ => hlow.bind fun _ _ => Traced.Notes.pure _
  unfold lowerLink
  simp only
  split
  · exact hlink _
  · refine (relativize_notes _).bind fun href _ => ?_
    split
    · exact Traced.Notes.pure _
    · exact hlink href

theorem lowerImage_notes (e : Dom.Element) : (lowerImage o e).Notes kind := by
  unfold lowerImage
  simp only
  split
  · exact Traced.Notes.pure _
  · exact (relativize_notes _).bind fun _ _ => Traced.Notes.pure _

/-- Those of cells are the notes of their contents. -/
theorem lowerCells_notes {indent : Int} {cells : List Dom.Element} (position : Nat)
    (hlow : ∀ cell ∈ cells, (lower (indent + 1) cell).Notes kind) :
    (lowerCells o lower indent position cells).Notes kind := by
  induction cells generalizing position with
  | nil => exact Traced.Notes.pure _
  | cons cell rest ih =>
      have hcell : (lowerCell o lower indent position cell).Notes kind := by
        unfold lowerCell
        split
        · exact (columnMark_notes position).bind fun _ _ => Traced.Notes.pure _
        · exact (hlow cell List.mem_cons_self).bind fun _ _ =>
            (columnMark_notes position).bind fun _ _ => Traced.Notes.pure _
      have hrest := ih (position + spanOf cell.tag "colspan")
        fun c hc => hlow c (List.mem_cons_of_mem cell hc)
      exact hcell.bind fun _ _ => hrest.bind fun _ _ => Traced.Notes.pure _

/-- And those of a table are the notes of its cells. -/
theorem lowerTable_notes {indent : Int} {e : Dom.Element}
    (hlow : ∀ d ∈ e.descendants, (lower (indent + 1) d).Notes kind) :
    (lowerTable o lower indent e).Notes kind := by
  rw [lowerTable_eq]
  refine (Traced.Notes.each _ fun row hrow => ?_).bind fun _ _ => Traced.Notes.pure _
  refine lowerCells_notes 0 fun cell hcell => ?_
  have hbelow := Dom.Element.descendants_subset e row (List.mem_filter.mp hrow).1
  exact hlow cell (hbelow (List.mem_filter.mp hcell).1)

include hmalformed in
/-- A head warns of structured data that is malformed, and of nothing else. -/
theorem extractMetadata_notes (extended : Bool) (head : Dom.Element) :
    (extractMetadata extended head).Notes kind := by
  have hblock : ∀ block, (blockItems block).Notes kind := by
    intro block
    unfold blockItems
    match Json.read (blockSource block) with
    | .error .malformed =>
        exact (Traced.Notes.warn hmalformed).bind fun _ _ => Traced.Notes.pure _
    | .error (.tooManyDigits _) => exact Traced.Notes.fail _
    | .ok value => cases value <;> exact Traced.Notes.pure _
  unfold extractMetadata
  split
  · exact (Traced.Notes.collect _ fun block _ => hblock block).bind fun _ _ => Traced.Notes.pure _
  · exact Traced.Notes.pure _

include hdebug hmalformed

/-- What the rule for an element notes: its decision, and what the descent notes for the element
    and the elements below it. -/
theorem lowerElement_notes (hhook : o.unhandledElement = none) (indent : Int) {e : Dom.Element}
    (hlow : ∀ indent, ∀ d ∈ e :: e.descendants, (lower indent d).Notes kind) :
    (lowerElement o lower indent e).Notes kind := by
  have hself := fun indent => hlow indent e List.mem_cons_self
  have hbelow := fun indent d hd => hlow indent d (List.mem_cons_of_mem e hd)
  -- Most rules put what is below into one node, which adds no note.
  have hwrap : ∀ node : List Node → List Node,
      ((lower indent e >>= fun nodes => pure (node nodes)) : Conversion (List Node)).Notes kind :=
    fun _ => (hself indent).bind fun _ _ => Traced.Notes.pure _
  unfold lowerElement
  refine (Traced.Notes.debugIf (hdebug _)).bind fun _ _ => ?_
  cases Dom.categoryOf o.metadata.wanted e.name with
  | heading level =>
      simp only
      split
      · exact Traced.Notes.pure _
      · exact hwrap fun nodes => [.heading level nodes]
  | paragraph => exact hwrap fun nodes => nodes ++ [.text "\n\n"]
  | link => exact (lowerLink_notes (hself indent)).bind fun _ _ => Traced.Notes.pure _
  | image => exact (lowerImage_notes e).bind fun _ _ => Traced.Notes.pure _
  | video => exact Traced.Notes.pure _
  | list =>
      exact (Traced.Notes.each _ fun c hc => hbelow (indent + 1) c
        (Dom.Element.mem_descendants_of_mem_children hc)).bind fun _ _ => Traced.Notes.pure _
  | lineBreak => exact Traced.Notes.pure _
  | table => exact (lowerTable_notes (hbelow (indent + 1))).bind fun _ _ => Traced.Notes.pure _
  | head =>
      exact (extractMetadata_notes hmalformed _ e).bind fun _ _ => Traced.Notes.pure _
  | dropped => exact Traced.Notes.pure _
  | emphasis style =>
      simp only
      split
      · exact Traced.Notes.pure _
      · exact hwrap fun nodes => [.emphasis style nodes]
  | code => exact Traced.Notes.pure _
  | quote => exact hwrap fun nodes => [.quote nodes]
  | semantic element => exact hwrap fun nodes => [.semantic element nodes]
  | unhandled =>
      simp only [hhook]
      exact hself (indent + 1)

theorem lowerChild_notes (hhooks : o.WithoutElementHooks) (indent : Int) (parent : Dom.Element)
    (child : Dom.Node)
    (hlow : ∀ indent, ∀ d ∈ child.elements parent.name parent.innerRole,
      (lower indent d).Notes kind) : (lowerChild o lower indent parent child).Notes kind := by
  unfold lowerChild
  rw [hhooks.1]
  cases child with
  | text content =>
      change (lowerText o content).Notes kind
      unfold lowerText
      simp only
      split
      · exact Traced.Notes.pure _
      · exact (Traced.Notes.debugIf (hdebug _)).bind fun _ _ => Traced.Notes.pure _
  | special _ _ => exact Traced.Notes.pure _
  | element tag nodes => exact lowerElement_notes hdebug hmalformed hhooks.2 indent hlow

/-- With more levels than the nesting of an element, whatever is noted is noted by a rule. The
    induction is on the levels, and each element below is nested less deep. -/
theorem lowerLevels_notes (hhooks : o.WithoutElementHooks) (levels : Nat) (indent : Int)
    (e : Dom.Element) (hheight : Dom.heightOf e.nodes < levels) :
    (lowerLevels o levels indent e).Notes kind := by
  induction levels generalizing indent e with
  | zero => exact absurd hheight (Nat.not_lt_zero _)
  | succ levels ih =>
      refine Traced.Notes.collect _ fun child hchild => ?_
      refine lowerChild_notes hdebug hmalformed hhooks indent e child fun indent d hd => ?_
      have hlt := Dom.Element.heightOf_lt e d (Dom.Element.elements_subset_of_mem_nodes hchild hd)
      exact ih indent d (by omega)

end

/-- Within the limit, no element is flattened. -/
theorem lower_notes {o : Options} (hhooks : o.WithoutElementHooks) (indent : Int) (e : Dom.Element)
    (hdepth : o.maxDepth.Allows (Dom.heightOf e.nodes)) :
    (lower o indent e).Notes fun note => ¬ note.IsFlattening := by
  rw [lower_of_allows hdepth]
  exact lowerLevels_notes (fun _ h => nomatch h.1) (by decide) hhooks _ indent e
    (heightOf_lt_levelsWithin o.maxDepth e hdepth)

/-- Options that lower alike may have different limits, if none of the two is reached. -/
theorem lower_result_eq {o o' : Options} (ho : o.LowerAlike o')
    (hmetadata : o'.metadata = o.metadata) (indent : Int) (e : Dom.Element)
    (hdepth : o.maxDepth.Allows (Dom.heightOf e.nodes))
    (hdepth' : o'.maxDepth.Allows (Dom.heightOf e.nodes)) :
    (lower o indent e).result = (lower o' indent e).result := by
  rw [lower_of_allows hdepth, lower_of_allows hdepth']
  exact lowerLevels_wrapped ho hmetadata _ _ indent indent e.name e e
    ⟨Dom.Wrapped.refl e.name e.nodes, rfl, rfl, rfl⟩
    (heightOf_lt_levelsWithin o.maxDepth e hdepth) (heightOf_lt_levelsWithin o'.maxDepth e hdepth')

/-- Two limits that allow the nesting of a page cannot be told apart: the outcome is the same, it is
    a tree unless lowering fails for another reason, and nothing is flattened under either. -/
theorem lower_limit_unseen (o : Options) (hhooks : o.WithoutElementHooks) (indent : Int)
    (e : Dom.Element) (depth : Nat) (hdepth : Dom.heightOf e.nodes ≤ depth)
    (limit limit' : DepthLimit) (hlimit : limit.Allows depth) (hlimit' : limit'.Allows depth) :
    (lower { o with maxDepth := limit } indent e).result =
        (lower { o with maxDepth := limit' } indent e).result ∧
      ((∃ nodes, (lower { o with maxDepth := limit } indent e).result = .ok nodes) ∨
        ∃ fault, (lower { o with maxDepth := limit } indent e).result = .error fault ∧
          LoweringFault { o with maxDepth := limit } e.descendants fault) ∧
      ((lower { o with maxDepth := limit } indent e).Notes fun note => ¬ note.IsFlattening) ∧
      (lower { o with maxDepth := limit' } indent e).Notes fun note => ¬ note.IsFlattening := by
  have hallows := hlimit.mono hdepth
  have hallows' := hlimit'.mono hdepth
  have ho : Options.LowerAlike { o with maxDepth := limit } { o with maxDepth := limit' } :=
    ⟨hhooks, hhooks, rfl, rfl⟩
  refine ⟨lower_result_eq ho rfl indent e hallows hallows', ?_,
    lower_notes ho.hooks indent e hallows, lower_notes ho.hooks' indent e hallows'⟩
  have hends := lower_made (fun _ _ _ => True) ho.hooks (fun _ => True.intro)
    (fun _ _ _ _ => True.intro) indent e
  exact hends.cases.imp (fun ⟨nodes, h, _⟩ => ⟨nodes, h⟩) id

/-- Emphasis in a cell, at the fourth level: limits of four and of four and a half allow it. Under a
    limit of zero the table would be flattened. -/
theorem lower_limit_unseen_cell :
    let plain (name : String) (nodes : List Dom.Node) : Dom.Node := .element ⟨name, []⟩ nodes
    let e : Dom.Element := ⟨"body", .ordinary, ⟨"div", []⟩,
      [plain "table" [plain "tr" [plain "td" [.text "a"], plain "td" [plain "b" [.text "c"]]]]]⟩
    let run (limit : DepthLimit) := lower { Options.default with maxDepth := limit } 0 e
    let half : Binary64 := .finite false 9 (-1)
    Dom.heightOf e.nodes ≤ 4 ∧ (DepthLimit.whole 4).Allows 4 ∧ (DepthLimit.fraction half).Allows 4 ∧
      (run (.whole 4)).result = (run (.fraction half)).result ∧
      ((run (.whole 4)).Notes fun note => ¬ note.IsFlattening) ∧
      ((run (.fraction half)).Notes fun note => ¬ note.IsFlattening) ∧
      ∃ note ∈ (run (.whole 0)).log, note.IsFlattening := by
  intro plain e run half
  have hdepth : Dom.heightOf e.nodes ≤ 4 := by decide
  have hall := lower_limit_unseen Options.default ⟨rfl, rfl⟩ 0 e 4 hdepth (.whole 4)
    (.fraction half) (by decide) (by decide)
  exact ⟨hdepth, by decide, by decide, hall.1, hall.2.2.1, hall.2.2.2, by decide +kernel⟩

end PageDistill
