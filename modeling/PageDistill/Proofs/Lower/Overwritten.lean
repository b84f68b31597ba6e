import PageDistill.Proofs.Lower.Rules

/-!
# Overwriting Every Text

What a hook is asked for that answers every text with one of its own.

The hook on elements is asked for each child before the rules are. If it answers every text of the
page with the same node, then a text of the tree that is not the answer is a text that the hook
was not asked for, and the tree shows which those are.

There are two of them. A link with nothing but text in it becomes that text at once, and so does
the cell of a table, without a way down to the children that the hook would be asked for
(`Overwritten.label`, `Markdown.Cell.Overwritten`). Every other text of the tree is the answer of
the hook or a break that a rule puts in, at any depth and by any rule; and what the second hook
answers stands in the tree as it is. On a page without those links and cells, and without the
second hook, the hook has been asked for every text (`lower_overwritten`).

The conditions are needed: the text of a link does get past the hook
(`lower_overwritten_link_text`).

## Main definitions

* `Overwrites`: A hook that answers every text with one of its own.
* `Overwritten`: The nodes that may stand in a tree under such a hook.
* `OnlyAnswers`: The same where nothing gets past the hook.
* `OverwritingFault`: The ways to fail.

## Theorems

* `Made.overwritten`: What a rule makes of what is overwritten.
* `lowerLevels_overwritten`: The run over the levels of a page.
* `lower_overwritten`: Where the texts of a tree come from.
* `lower_overwritten_link_text`: A text that the hook is not asked for.
-/

namespace PageDistill

open Markdown (Node Cell walk)

/-- A hook that was shown the options answers every text with one of its own and leaves elements
    to the rules. Strings of other kinds it may take for texts or not. -/
structure Overwrites (rule : ElementRule) (answer : String) : Prop where
  text : ∀ content indent, rule (.text content) indent = .ok (some [.text answer])
  special : ∀ kind content indent, rule (.special kind content) indent = .ok none ∨
    rule (.special kind content) indent = .ok (some [.text answer])
  element : ∀ tag nodes indent, rule (.element tag nodes) indent = .ok none

/-- The element is a cell of a table. -/
def Dom.Element.IsCell (e : Dom.Element) : Prop := e.name = "th" ∨ e.name = "td"

namespace Markdown

/-- A cell that held nothing but text has its text, which no hook was asked for, unless it belongs
    to the row that separates a header from its body. -/
def Cell.Overwritten (elements : List Dom.Element) : Cell → Prop
  | .plain text _ =>
    text = "---" ∨ ∃ d ∈ elements, d.IsCell ∧ d.holdsOnlyText = true ∧
      text = String.ofList (Markdown.escape (Text.trim d.text))
  | .rich .. => True

/-- A node has no text itself. -/
def Node.IsTextless : Node → Prop
  | .text _ => False
  | .code .. => False
  | .table .. => False
  | _ => True

end Markdown

/-- The nodes that may stand in the tree of some elements when a hook has overwritten every text
    that it was asked for. -/
inductive Overwritten (o : Options) (answer : String) (elements : List Dom.Element) : Node → Prop
  where
  | text (content : String) (h : content = answer ∨ content = "\n" ∨ content = "\n\n") :
      Overwritten o answer elements (.text content)
  | label (d : Dom.Element) (hd : d ∈ elements)
      (hcategory : Dom.categoryOf o.metadata.wanted d.name = .link)
      (honly : d.holdsOnlyText = true) :
      Overwritten o answer elements (.text (String.ofList (Text.trim d.text)))
  | table (rows : List (List Cell)) (colIds : Option (List String))
      (h : ∀ row ∈ rows, ∀ cell ∈ row, cell.Overwritten elements) :
      Overwritten o answer elements (.table rows colIds)
  | unhandled (d : Dom.Element) (hd : d ∈ elements) (ask : ElementHook)
      (hhook : o.unhandledElement = some ask) (indent : Int) (nodes : List Node)
      (hasked : ask o.view (.element d.tag d.nodes) indent = .ok (some nodes)) (node : Node)
      (hnode : node ∈ walk nodes) : Overwritten o answer elements node
  | textless (node : Node) (h : node.IsTextless) : Overwritten o answer elements node

/-- A text is the answer of a hook or a break, and a cell that is not a tree of its own is empty or
    separates a header from its body. -/
def OnlyAnswers (answer : String) : Node → Prop
  | .text content => content = answer ∨ content = "\n" ∨ content = "\n\n"
  | .table rows _ => ∀ row ∈ rows, ∀ text marks, Cell.plain text marks ∈ row →
      text = "---" ∨ text = ""
  | _ => True

/-- Nothing gets past the hook on texts: there is no second hook, no link with nothing but text in
    it, and no cell with text that the hook is not asked for. -/
structure NothingPast (o : Options) (elements : List Dom.Element) : Prop where
  hook : o.unhandledElement = none
  links : ∀ d ∈ elements, Dom.categoryOf o.metadata.wanted d.name = .link →
    d.holdsOnlyText = false
  cells : ∀ d ∈ elements, d.IsCell → d.holdsOnlyText = true → Text.isAllBlank d.text = true

/-- The ways in which lowering fails under a hook that does not: one of its own, or a failure of
    the hook on elements without a rule. -/
inductive OverwritingFault (o : Options) (elements : List Dom.Element) : ConversionError → Prop
  where
  | lowering (fault : ConversionError) (h : LoweringFault o elements fault) :
      OverwritingFault o elements fault
  | unhandled (d : Dom.Element) (hd : d ∈ elements) (ask : ElementHook)
      (hhook : o.unhandledElement = some ask) (indent : Int) (fault : HookFault)
      (hasked : ask o.view (.element d.tag d.nodes) indent = .error fault) :
      OverwritingFault o elements (.hook fault)

open Markdown (forall_walk_singleton forall_walk_flatten)

section

variable {o : Options} {answer : String} {elements : List Dom.Element}

theorem tableOf_overwritten {e : Dom.Element} {rows : List (List Cell)}
    (hsub : e.descendants ⊆ elements)
    (h : MadeRows o (fun _ nodes => ∀ d ∈ walk nodes, Overwritten o answer elements d) e rows) :
    ∀ d ∈ walk [tableOf o e rows], Overwritten o answer elements d := by
  rcases tableOf_forall_cell
    (fun cell => cell.Overwritten elements ∧
      ∀ d ∈ walk cell.content, Overwritten o answer elements d) h
    ⟨Or.inl rfl, List.forall_mem_nil _⟩
    (fun d hd hcell honly _ => ⟨Or.inr ⟨d, hsub hd, hcell, honly, rfl⟩, List.forall_mem_nil _⟩)
    fun _ _ _ hcontent _ => ⟨True.intro, hcontent⟩ with ⟨all, colIds, htable, hcells⟩
  rw [htable]
  refine forall_walk_singleton
    (.table all colIds fun row hrow cell hcell => (hcells row hrow cell hcell).1) ?_
  rw [Node.children, List.flatMap_def]
  refine forall_walk_flatten fun content hcontent => ?_
  rcases List.mem_map.mp hcontent with ⟨cell, hcell, rfl⟩
  rcases List.mem_flatten.mp hcell with ⟨row, hrow, hcell⟩
  exact (hcells row hrow cell hcell).2

/-- A rule for anything but code makes nodes that are overwritten out of nodes that are. -/
theorem Made.overwritten {e : Dom.Element} (hsub : e :: e.descendants ⊆ elements)
    (hcode : Dom.categoryOf o.metadata.wanted e.name ≠ .code) {nodes : List Node}
    (h : Made o (fun _ nodes => ∀ d ∈ walk nodes, Overwritten o answer elements d) e nodes) :
    ∀ d ∈ walk nodes, Overwritten o answer elements d := by
  have hnone : ∀ d ∈ walk [], Overwritten o answer elements d :=
    fun _ hd => absurd hd List.not_mem_nil
  -- Most rules wrap what is below in a node without text.
  have hwrap : ∀ node : Node, node.IsTextless →
      (∀ d ∈ walk node.children, Overwritten o answer elements d) →
      ∀ d ∈ walk [node], Overwritten o answer elements d :=
    fun node hnode => forall_walk_singleton (.textless node hnode)
  have hbreak : ∀ content, content = "\n" ∨ content = "\n\n" →
      ∀ d ∈ walk [.text content], Overwritten o answer elements d :=
    fun content hcontent => forall_walk_singleton (.text content (Or.inr hcontent)) hnone
  cases h with
  | blank | dropped => exact hnone
  | heading _ _ _ h => exact hwrap _ True.intro h
  | paragraph _ h =>
      rw [Markdown.walk_append]
      exact List.forall_mem_append.mpr ⟨h, hbreak _ (Or.inr rfl)⟩
  | label hcategory honly =>
      refine hwrap _ True.intro (forall_walk_singleton ?_ hnone)
      exact .label e (hsub List.mem_cons_self) hcategory honly
  | link _ h => exact hwrap _ True.intro h
  | image | video | head => exact hwrap _ True.intro hnone
  | list _ h =>
      refine hwrap _ True.intro (forall_walk_flatten fun item hitem => ?_)
      rcases Traced.exists_of_mem_right h hitem with ⟨_, _, hlowered⟩
      exact hlowered
  | lineBreak => exact hbreak _ (Or.inl rfl)
  | table _ h => exact tableOf_overwritten (List.Subset.trans (List.subset_cons_self _ _) hsub) h
  | emphasis _ _ _ h => exact hwrap _ True.intro h
  | code hcategory => exact absurd hcategory hcode
  | quote _ h => exact hwrap _ True.intro h
  | semantic _ _ h => exact hwrap _ True.intro h
  | passed _ h => exact h

/-- Where nothing gets past the hook, each node is one of its answers or has no text. -/
theorem Overwritten.onlyAnswers {node : Node} (h : Overwritten o answer elements node)
    (hpast : NothingPast o elements) : OnlyAnswers answer node := by
  cases h with
  | text content h => exact h
  -- Nothing gets past the hook, so no link or cell is read by its text alone.
  | label d hd hcategory honly =>
      rw [hpast.links d hd hcategory] at honly
      exact absurd honly Bool.false_ne_true
  | table rows colIds h =>
      intro row hrow text marks hcell
      rcases h row hrow _ hcell with hmark | ⟨d, hd, hiscell, honly, rfl⟩
      · exact Or.inl hmark
      · -- Blank text is trimmed to nothing.
        have hblank := hpast.cells d hd hiscell honly
        refine Or.inr ?_
        rw [(Text.trim_eq_nil_iff d.text).mpr hblank]
        rfl
  | unhandled d hd ask hhook =>
      rw [hpast.hook] at hhook
      exact absurd hhook nofun
  | textless node h =>
      cases node with
      | text | table => exact absurd h id
      | _ => exact True.intro

end

section

variable {o : Options} {hook : ElementHook} {answer : String} {elements : List Dom.Element}

theorem askHook_ends {ask : ElementRule} {node : Dom.Node} {indent : Int}
    {found : Option (List Node)} {bad : ConversionError → Prop}
    (h : ask node indent = .ok found) : (askHook (some ask) node indent).Ends (· = found) bad := by
  unfold askHook
  simp only [h]
  exact Traced.Ends.pure rfl

/-- The second hook answers with nodes of its own, or fails. -/
theorem askUnhandled_overwritten (indent : Int) {e : Dom.Element} (he : e ∈ elements) :
    (askHook (o.shownTo o.unhandledElement) (.element e.tag e.nodes) indent).Ends
      (fun found => ∀ node nodes, found = some (node :: nodes) →
        ∀ d ∈ walk (node :: nodes), Overwritten o answer elements d)
      (OverwritingFault o elements) := by
  cases hhook : o.unhandledElement with
  | none => exact Traced.Ends.pure nofun
  | some ask =>
      change (askHook (some (ask o.view)) _ indent).Ends _ _
      cases hasked : ask o.view (.element e.tag e.nodes) indent with
      | error fault =>
          unfold askHook
          simp only [hasked]
          exact Traced.Ends.fail (.unhandled e he ask hhook indent fault hasked)
      | ok found =>
          refine (askHook_ends hasked).mono fun answered hanswered node nodes hfound d hd => ?_
          rw [← hanswered, hfound] at hasked
          exact .unhandled e he ask hhook indent (node :: nodes) hasked d hd

variable (hhook : o.overrideElement = some hook) (hanswers : Overwrites (hook o.view) answer)
  (hcode : ∀ d ∈ elements, Dom.categoryOf o.metadata.wanted d.name ≠ .code)

include hhook hanswers hcode

/-- A child is overwritten if its elements are lowered to nodes that are. -/
theorem lowerChild_overwritten {descend : Descent} (indent : Int) (parent : Dom.Element)
    (child : Dom.Node) (hsub : child.elements parent.name parent.innerRole ⊆ elements)
    (hlow : ∀ indent, ∀ d ∈ child.elements parent.name parent.innerRole,
      (descend indent d).Ends (fun nodes => ∀ d ∈ walk nodes, Overwritten o answer elements d)
        (OverwritingFault o elements)) :
    (lowerChild o descend indent parent child).Ends
      (fun nodes => ∀ d ∈ walk nodes, Overwritten o answer elements d)
      (OverwritingFault o elements) := by
  have hnone : ∀ d ∈ walk [], Overwritten o answer elements d :=
    fun _ hd => absurd hd List.not_mem_nil
  have hanswer : ∀ d ∈ walk [.text answer], Overwritten o answer elements d :=
    forall_walk_singleton (.text answer (Or.inl rfl)) hnone
  unfold lowerChild
  rw [hhook]
  cases child with
  | text content =>
      refine (askHook_ends (hanswers.text content indent)).bind fun found hfound => ?_
      rw [hfound]
      exact (Traced.Ends.debugIf _ _).bind fun _ _ => Traced.Ends.pure hanswer
  | special kind content =>
      -- The hook leaves a comment alone or answers it like a text.
      rcases hanswers.special kind content indent with hasked | hasked
      · refine (askHook_ends hasked).bind fun found hfound => ?_
        rw [hfound]
        exact Traced.Ends.pure hnone
      · refine (askHook_ends hasked).bind fun found hfound => ?_
        rw [hfound]
        exact (Traced.Ends.debugIf _ _).bind fun _ _ => Traced.Ends.pure hanswer
  | element tag nodes =>
      refine (askHook_ends (hanswers.element tag nodes indent)).bind fun found hfound => ?_
      rw [hfound]
      refine lowerElement_ends (fun fault h => .lowering fault h) indent hsub hlow ?_ fun _ => ?_
      · exact fun _ hmade => hmade.overwritten hsub (hcode _ (hsub List.mem_cons_self))
      · exact askUnhandled_overwritten indent (hsub List.mem_cons_self)

/-- With levels enough, all that the levels make of an element is overwritten. -/
theorem lowerLevels_overwritten (levels : Nat) (indent : Int) (e : Dom.Element)
    (hdepth : Dom.heightOf e.nodes < levels) (hsub : e.descendants ⊆ elements) :
    (lowerLevels o levels indent e).Ends
      (fun nodes => ∀ d ∈ walk nodes, Overwritten o answer elements d)
      (OverwritingFault o elements) := by
  induction levels generalizing indent e with
  | zero => exact absurd hdepth (Nat.not_lt_zero _)
  | succ levels ih =>
      unfold lowerLevels
      refine Traced.Ends.collect
        (fun _ nodes => ∀ d ∈ walk nodes, Overwritten o answer elements d) _ e.nodes
        (fun _ hd => absurd hd List.not_mem_nil) (fun _ _ _ _ hfirst hothers => ?_)
        fun child hchild => ?_
      · rw [Markdown.walk_append]
        exact List.forall_mem_append.mpr ⟨hfirst, hothers⟩
      -- The elements of a child lie below, and they are lower by one at least.
      · have hbelow := Dom.Element.elements_subset_of_mem_nodes hchild
        refine lowerChild_overwritten hhook hanswers hcode indent e child
          (List.Subset.trans hbelow hsub) fun indent d hd => ih indent d ?_ ?_
        · have hlt := Dom.Element.heightOf_lt e d (hbelow hd)
          omega
        · exact List.Subset.trans (Dom.Element.descendants_subset e d (hbelow hd)) hsub

end

/-- Under a hook that overwrites every text, the texts of a tree are its answers, breaks, what the
    second hook answers, and the texts of links and cells with nothing but text in them. Where
    there is none of the last three, the hook has been asked for every text. -/
theorem lower_overwritten (o : Options) (hook : ElementHook) (answer : String)
    (hhook : o.overrideElement = some hook) (hanswers : Overwrites (hook o.view) answer)
    (indent : Int) (e : Dom.Element) (hdepth : o.maxDepth.Allows (Dom.heightOf e.nodes))
    (hcode : ∀ d ∈ e.descendants, Dom.categoryOf o.metadata.wanted d.name ≠ .code) :
    (∃ nodes, (lower o indent e).result = .ok nodes ∧
        (∀ node ∈ walk nodes, Overwritten o answer e.descendants node) ∧
        (NothingPast o e.descendants → ∀ node ∈ walk nodes, OnlyAnswers answer node)) ∨
      ∃ fault, (lower o indent e).result = .error fault ∧
        OverwritingFault o e.descendants fault := by
  rw [lower_of_allows hdepth]
  have hlevels := lowerLevels_overwritten hhook hanswers hcode (levelsWithin o.maxDepth e) indent e
    (lt_levelsWithin hdepth (Nat.le_refl _)) (List.Subset.refl _)
  rcases hlevels.cases with ⟨nodes, hresult, hall⟩ | hfault
  · exact Or.inl ⟨nodes, hresult, hall, fun hpast node hnode =>
      (hall node hnode).onlyAnswers hpast⟩
  · exact Or.inr hfault

/-- A hook that answers every text with the same text. -/
def overwriting (answer : String) : ElementHook
  | _, .text _, _ => .ok (some [.text answer])
  | _, _, _ => .ok none

theorem overwrites_overwriting (answer : String) (view : HookView) :
    Overwrites (overwriting answer view) answer :=
  ⟨fun _ _ => rfl, fun _ _ _ => Or.inl rfl, fun _ _ _ => rfl⟩

/-- Emphasis, a list, a link around emphasis and a table with a header: every text is
    overwritten. -/
theorem lower_overwritten_mixed :
    let plain (name : String) (nodes : List Dom.Node) : Dom.Node := .element ⟨name, []⟩ nodes
    let e : Dom.Element := ⟨"body", .ordinary, ⟨"div", []⟩,
      [.text "one", plain "b" [.text "two"], plain "ul" [plain "li" [.text "three"]],
        plain "a" [plain "i" [.text "four"], .special .comment "no text"],
        plain "table" [plain "tr" [plain "th" [], plain "td" [.text " "]],
          plain "tr" [plain "td" [plain "p" [.text "five"]]]]]⟩
    let o : Options := { Options.default with overrideElement := some (overwriting "-") }
    (∀ d ∈ e.descendants, Dom.categoryOf o.metadata.wanted d.name ≠ .code) ∧
      o.maxDepth.Allows (Dom.heightOf e.nodes) ∧ NothingPast o e.descendants ∧
      ∃ nodes, (lower o 0 e).result = .ok nodes ∧ ∀ node ∈ walk nodes, OnlyAnswers "-" node := by
  intro plain e o
  have hcode : ∀ d ∈ e.descendants, Dom.categoryOf o.metadata.wanted d.name ≠ .code := by
    decide +kernel
  have hdepth : o.maxDepth.Allows (Dom.heightOf e.nodes) := by decide
  have hpast : NothingPast o e.descendants := by
    refine ⟨rfl, ?_, ?_⟩
    · decide +kernel
    · unfold Dom.Element.IsCell
      decide +kernel
  refine ⟨hcode, hdepth, hpast, ?_⟩
  rcases lower_overwritten o (overwriting "-") "-" rfl (overwrites_overwriting "-" o.view) 0 e
    hdepth hcode with ⟨nodes, hresult, _, honly⟩ | ⟨_, _, hfault⟩
  · exact ⟨nodes, hresult, honly hpast⟩
  · cases hfault with
    | lowering _ h => exact (h.false_of_plain rfl nofun rfl rfl).elim
    | unhandled _ _ _ hhook => exact absurd hhook nofun

/-- The text of a link is in the tree, although the hook overwrites every text that it is asked
    for. -/
theorem lower_overwritten_link_text :
    let e : Dom.Element := ⟨"[document]", .ordinary, ⟨"div", []⟩,
      [.element ⟨"a", [("href", .text "u")]⟩ [.text "x"]]⟩
    let o : Options := { Options.default with overrideElement := some (overwriting "Y") }
    Overwrites (overwriting "Y" o.view) "Y" ∧ o.maxDepth.Allows (Dom.heightOf e.nodes) ∧
      (∀ d ∈ e.descendants, Dom.categoryOf o.metadata.wanted d.name ≠ .code) ∧
      (lower o 0 e).result = .ok [.link "u" [.text "x"]] ∧
      ¬ ∀ node ∈ walk [.link "u" [.text "x"]], OnlyAnswers "Y" node :=
  ⟨overwrites_overwriting "Y" _, by decide, by decide +kernel, rfl, fun h => by
    have htext := h (.text "x") (by simp [walk, Node.walk])
    simp [OnlyAnswers] at htext⟩

end PageDistill
