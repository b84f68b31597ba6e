import PageDistill.Options.Settings

/-!
# Options That a Conversion Cannot Tell Apart

Choices that need not be the same for two conversions to be.

No stage of a conversion reads the table of references that the options hold. What is cut from URLs
matters only by what it leaves of them, and the wish for metadata only by the answers to two
questions: whether there should be any, and whether there should be more. Five stages ask these: the
category of an element, the extraction of metadata, the choice of the root, the return of the head,
and the front matter. The hooks are another matter, since they are shown all choices. So options are
interchangeable if they are the same apart from these three choices, cut alike, have the same
answers to the two questions, and have hooks which answer alike when they are shown the one or the
other: each stage is the same function with either then, and a page gets the same answer, with the
same notes.

## Main definitions

* `Options.SameNodeHooks`: Options with hooks on nodes that answer alike.
* `Options.Interchangeable`: Options that no stage of a conversion tells apart.
* `Overlooks`, `Options.HooksOverlook`: Hooks that do not see a change of what they are shown.
* `Setting.Overlooks`: A setting that brings no hook which sees a change.

## Theorems

* `renderNodes_congr`: Rendering looks at the hooks on nodes alone.
* `Interchangeable.lower_eq`: Interchangeable options lower in the same way.
* `Interchangeable.contentElement_eq`: They choose the same element.
* `Interchangeable.renderPage_eq`: They render in the same way, with the same front matter.
* `Interchangeable.finish_markdown`, `Interchangeable.convertPage_markdown`: They give the same
  answers.
* `HooksOverlook.override`: Settings keep hooks from seeing a change if they bring none that does.
* `interchangeable_withReferences`, `interchangeable_withMetadata`: Two changes of options that
  no stage sees if the hooks do not.
-/

namespace PageDistill

open Markdown (Node Cell)

/-- Options with hooks on nodes that answer alike when they are shown them. -/
def Options.SameNodeHooks (o o' : Options) : Prop :=
  o'.shownTo o'.overrideNode = o.shownTo o.overrideNode ∧
    o'.shownTo o'.renderCustom = o.shownTo o.renderCustom

/-- Options that no stage of a conversion tells apart. The hooks on nodes may be shown them after
    the table was replaced, too. -/
structure Options.Interchangeable (o o' : Options) : Prop where
  extract : o'.extractMainContent = o.extractMainContent
  shorten : o'.shortenUrls = o.shortenUrls
  debug : o'.debug = o.debug
  reader : o'.reader = o.reader
  track : o'.trackTableColumns = o.trackTableColumns
  limit : o'.maxDepth = o.maxDepth
  relativize : relativize o' = relativize o
  wanted : o'.metadata.wanted = o.metadata.wanted
  extended : o'.metadata.isExtended = o.metadata.isExtended
  override : o'.shownTo o'.overrideElement = o.shownTo o.overrideElement
  unhandled : o'.shownTo o'.unhandledElement = o.shownTo o.unhandledElement
  nodes : o.SameNodeHooks o'
  nodesAfter : ∀ refs, (o.withReferences refs).SameNodeHooks (o'.withReferences refs)

namespace Markdown

variable {o o' : Options}

mutual

/-- Rendering looks at the hooks on nodes alone. -/
theorem renderNodes_congr (h : o.SameNodeHooks o') (indent : Int) (out : List Char)
    (nodes : List Node) :
    renderNodes o' indent out nodes = renderNodes o indent out nodes := by
  cases nodes with
  | nil => rfl
  | cons node rest =>
      have hrest : ∀ out, renderNodes o' indent out rest = renderNodes o indent out rest :=
        fun out => renderNodes_congr h indent out rest
      have hbody := body_congr h indent node
      unfold renderNodes
      simp only [h.1, h.2, hrest]
      cases node with
      | custom payload => rfl
      | _ => simp only [hbody]

theorem body_congr (h : o.SameNodeHooks o') (indent : Int) (node : Node) :
    node.body o' indent = node.body o indent := by
  cases node with
  | emphasis style content => rw [Node.body, Node.body, renderNodes_congr h indent [] content]
  | link href content => rw [Node.body, Node.body, renderNodes_congr h (indent + 1) [] content]
  | heading level content => rw [Node.body, Node.body, renderNodes_congr h indent [] content]
  | list ordered items => rw [Node.body, Node.body, renderItems_congr h indent ordered 1 items]
  | table rows colIds => rw [Node.body, Node.body, renderRows_congr h indent _ rows]
  | quote content => rw [Node.body, Node.body, renderNodes_congr h indent [] content]
  | semantic element content => rw [Node.body, Node.body, renderNodes_congr h indent [] content]
  | _ => rfl

theorem renderItems_congr (h : o.SameNodeHooks o') (indent : Int) (ordered : Bool) (number : Nat)
    (items : List (List Node)) :
    renderItems o' indent ordered number items = renderItems o indent ordered number items := by
  cases items with
  | nil => rfl
  | cons item items =>
      rw [renderItems, renderItems, renderNodes_congr h (indent + 1) [] item,
        renderItems_congr h indent ordered (number + 1) items]

theorem renderRows_congr (h : o.SameNodeHooks o') (indent width : Int) (rows : List (List Cell)) :
    renderRows o' indent width rows = renderRows o indent width rows := by
  cases rows with
  | nil => rfl
  | cons row rows =>
      rw [renderRows, renderRows, renderRow_congr h indent row,
        renderRows_congr h indent width rows]

/-- The cells of a row are rendered alike. -/
theorem renderRow_congr (h : o.SameNodeHooks o') (indent : Int) (row : List Cell) :
    renderRow o' indent row = renderRow o indent row := by
  cases row with
  | nil => rfl
  | cons cell cells =>
      cases cell with
      | plain text marks => rw [renderRow, renderRow, renderRow_congr h indent cells]
      | rich content marks =>
          rw [renderRow, renderRow, renderNodes_congr h (indent + 1) [] content,
            renderRow_congr h indent cells]

end

end Markdown

namespace Options.Interchangeable

variable {o o' : Options} (h : o.Interchangeable o')

include h

theorem lowerLink_eq : lowerLink o' = lowerLink o := by
  funext lower indent e
  unfold lowerLink
  rw [h.relativize]

theorem lowerImage_eq : lowerImage o' = lowerImage o := by
  funext e
  unfold lowerImage
  rw [h.relativize]

theorem lowerCells_eq (lower : Descent) (indent : Int) (position : Nat)
    (cells : List Dom.Element) :
    lowerCells o' lower indent position cells = lowerCells o lower indent position cells := by
  have hmark : columnMark o' = columnMark o := by
    funext position
    unfold columnMark
    rw [h.track]
  induction cells generalizing position with
  | nil => rfl
  | cons cell cells ih =>
      unfold lowerCells lowerCell
      rw [hmark]
      simp only [ih]

/-- No rule asks for anything in which the two options differ. -/
theorem lowerElement_eq (lower : Descent) (indent : Int) (e : Dom.Element) :
    lowerElement o' lower indent e = lowerElement o lower indent e := by
  have htable : lowerTable o' lower indent e = lowerTable o lower indent e := by
    unfold lowerTable
    simp only [h.lowerCells_eq, h.track]
  unfold lowerElement
  rw [htable, h.lowerLink_eq, h.lowerImage_eq, h.debug, h.wanted, h.extended, h.unhandled]

theorem lowerChild_eq (lower : Descent) (indent : Int) (parent : Dom.Element)
    (child : Dom.Node) :
    lowerChild o' lower indent parent child = lowerChild o lower indent parent child := by
  unfold lowerChild lowerText
  simp only [h.lowerElement_eq, h.override, h.debug]

/-- So the whole descent is the same. -/
theorem lowerLevels_eq (levels : Nat) : lowerLevels o' levels = lowerLevels o levels := by
  induction levels with
  | zero =>
      funext indent e
      unfold lowerLevels flatten
      rw [h.limit]
  | succ levels ih =>
      funext indent e
      unfold lowerLevels
      rw [ih]
      congr 1
      funext child
      exact h.lowerChild_eq _ indent e child

/-- Interchangeable options lower in the same way. -/
theorem lower_eq (indent : Int) (e : Dom.Element) : lower o' indent e = lower o indent e := by
  unfold lower
  rw [h.limit]
  simp only [h.lowerLevels_eq]

/-- The tree and its references are the same. -/
theorem semanticTree_eq (e : Dom.Element) : semanticTree o' e = semanticTree o e := by
  unfold semanticTree
  rw [h.lower_eq, h.shorten]

/-- Interchangeable options choose the same element of a page. -/
theorem contentElement_eq (readers : Readers) (page : Page) :
    contentElement readers o' page = contentElement readers o page := by
  unfold contentElement
  rw [h.wanted, h.extract, h.reader]

/-- The front matter of a tree is the same under both. -/
theorem frontMatter_eq (nodes : List Node) :
    Markdown.frontMatter o'.metadata nodes = Markdown.frontMatter o.metadata nodes := by
  unfold Markdown.frontMatter
  rw [h.wanted, h.extended]

/-- Interchangeable options render in the same way, as they are and after the table was replaced. -/
theorem renderPage_eq (indent : Int) (nodes : List Node) :
    Markdown.renderPage o' indent nodes = Markdown.renderPage o indent nodes := by
  unfold Markdown.renderPage Markdown.renderContent
  rw [Markdown.renderNodes_congr h.nodes, h.frontMatter_eq]

/-- The same page is written after new references were left in both. -/
theorem renderPage_after (refs : ReferenceMap) (indent : Int) (nodes : List Node) :
    Markdown.renderPage (o'.withReferences refs) indent nodes =
      Markdown.renderPage (o.withReferences refs) indent nodes := by
  unfold Markdown.renderPage Markdown.renderContent
  rw [Markdown.renderNodes_congr (h.nodesAfter refs)]
  exact congrArg (_ >>= ·) (funext fun content =>
    congrArg (fun block => Except.ok (Text.trimEnd (block ++ content))) (h.frontMatter_eq nodes))

/-- Finishing a tree gives the same answer with interchangeable options. -/
theorem finish_markdown (tree : Conversion (List Node × Option ReferenceMap)) :
    (finish o' tree).markdown = (finish o tree).markdown := by
  have hrender : ∀ nodes, Markdown.renderPage (optionsAfter o' tree) 0 nodes =
      Markdown.renderPage (optionsAfter o tree) 0 nodes := by
    intro nodes
    unfold optionsAfter
    split
    · exact h.renderPage_after _ 0 nodes
    · exact h.renderPage_eq 0 nodes
  unfold finish
  simp only [hrender]

theorem convertElement_markdown (e : Dom.Element) :
    (convertElement o' e).markdown = (convertElement o e).markdown := by
  unfold convertElement
  rw [h.finish_markdown, h.semanticTree_eq]

/-- A page gets the same answer with interchangeable options, whatever readers are there. -/
theorem convertPage_markdown (readers : Readers) (html : String) :
    (convertPage readers o' html).markdown = (convertPage readers o html).markdown := by
  unfold convertPage pageTree chosenElement
  rw [h.finish_markdown, h.reader]
  simp only [h.contentElement_eq, h.semanticTree_eq]

end Options.Interchangeable

/-- A hook answers alike whether what it is shown was changed or not. -/
def Overlooks {α : Type} (change : HookView → HookView) (hook : HookView → α) : Prop :=
  ∀ view, hook (change view) = hook view

/-- The hooks of some options answer alike whether what they are shown was changed or not. -/
structure Options.HooksOverlook (o : Options) (change : HookView → HookView) : Prop where
  overrideElement : ∀ hook, o.overrideElement = some hook → Overlooks change hook
  unhandledElement : ∀ hook, o.unhandledElement = some hook → Overlooks change hook
  overrideNode : ∀ hook, o.overrideNode = some hook → Overlooks change hook
  renderCustom : ∀ hook, o.renderCustom = some hook → Overlooks change hook

/-- A setting brings no hook that sees a change of what it is shown. -/
def Setting.Overlooks (s : Setting) (change : HookView → HookView) : Prop :=
  (∀ hook, s = .elementHook hook → PageDistill.Overlooks change hook) ∧
    ∀ hook, s = .nodeHook hook → PageDistill.Overlooks change hook

/-- Settings keep hooks from seeing a change if they bring none that does. -/
theorem Options.HooksOverlook.override {o : Options} {change : HookView → HookView}
    {settings : List (String × Setting)} (ho : o.HooksOverlook change)
    (hsettings : ∀ s ∈ settings, s.2.Overlooks change) :
    (o.override settings).HooksOverlook change := by
  have helement : ∀ s : Setting, s.Overlooks change → ∀ hook, s.elementHook? = some hook →
      Overlooks change hook := by
    intro s hs hook hhook
    cases s with
    | elementHook ask =>
        obtain rfl := Option.some.inj hhook
        exact hs.1 ask rfl
    | value v =>
        cases v with
        | null => cases hhook
        -- A value that is no hook fails, whatever it is shown.
        | _ =>
            obtain rfl := Option.some.inj hhook
            exact fun _ => rfl
    | _ => cases hhook
  have hnode : ∀ s : Setting, s.Overlooks change → ∀ hook, s.nodeHook? = some hook →
      Overlooks change hook := by
    intro s hs hook hhook
    cases s with
    | nodeHook ask =>
        obtain rfl := Option.some.inj hhook
        exact hs.2 ask rfl
    | value v =>
        cases v with
        | null => cases hhook
        | _ =>
            obtain rfl := Option.some.inj hhook
            exact fun _ => rfl
    | _ => cases hhook
  unfold Options.override
  induction settings generalizing o with
  | nil => exact ho
  | cons setting settings ih =>
      have hs := hsettings setting List.mem_cons_self
      refine ih ?_ fun s hmem => hsettings s (List.mem_cons_of_mem _ hmem)
      simp only
      unfold Options.set
      split
      case h_9 => exact { ho with overrideElement := helement _ hs }
      case h_10 => exact { ho with unhandledElement := helement _ hs }
      case h_11 => exact { ho with overrideNode := hnode _ hs }
      case h_12 => exact { ho with renderCustom := hnode _ hs }
      all_goals exact ⟨ho.1, ho.2, ho.3, ho.4⟩

/-- What hooks are shown, with another table of references. -/
def HookView.withReferences (refs : ReferenceMap) (view : HookView) : HookView :=
  { view with urlMap := refs }

/-- What hooks are shown, with another wish for metadata. -/
def HookView.withMetadata (choice : MetadataChoice) (view : HookView) : HookView :=
  { view with metadata := choice }

/-- A hook that overlooks a change of what it is shown does the same after it. -/
theorem shownTo_of_overlooks {α : Type} {o o' : Options} {change : HookView → HookView}
    (hview : o'.view = change o.view) {hook : Option (HookView → α)}
    (h : ∀ ask, hook = some ask → Overlooks change ask) : o'.shownTo hook = o.shownTo hook := by
  cases hook with
  | none => rfl
  | some ask =>
      unfold Options.shownTo
      rw [Option.map_some, Option.map_some, hview, h ask rfl]

/-- No stage reads the table of references, so other references make no difference if the hooks do
    not look at them. -/
theorem interchangeable_withReferences {o : Options} (refs : ReferenceMap)
    (h : o.HooksOverlook (HookView.withReferences refs)) :
    o.Interchangeable (o.withReferences refs) where
  extract := rfl
  shorten := rfl
  debug := rfl
  reader := rfl
  track := rfl
  limit := rfl
  relativize := rfl
  wanted := rfl
  extended := rfl
  override := shownTo_of_overlooks rfl h.overrideElement
  unhandled := shownTo_of_overlooks rfl h.unhandledElement
  nodes := ⟨shownTo_of_overlooks rfl h.overrideNode, shownTo_of_overlooks rfl h.renderCustom⟩
  nodesAfter _ := ⟨rfl, rfl⟩

/-- Another wish for metadata makes no difference if it has the same answers to both questions and
    the hooks do not look at it. -/
theorem interchangeable_withMetadata {o : Options} {choice : MetadataChoice}
    (hwanted : choice.wanted = o.metadata.wanted)
    (hextended : choice.isExtended = o.metadata.isExtended)
    (h : o.HooksOverlook (HookView.withMetadata choice)) :
    o.Interchangeable (o.withMetadata choice) where
  extract := rfl
  shorten := rfl
  debug := rfl
  reader := rfl
  track := rfl
  limit := rfl
  relativize := rfl
  wanted := hwanted
  extended := hextended
  override := shownTo_of_overlooks rfl h.overrideElement
  unhandled := shownTo_of_overlooks rfl h.unhandledElement
  nodes := ⟨shownTo_of_overlooks rfl h.overrideNode, shownTo_of_overlooks rfl h.renderCustom⟩
  nodesAfter refs :=
    ⟨shownTo_of_overlooks (o := o.withReferences refs) rfl h.overrideNode,
      shownTo_of_overlooks (o := o.withReferences refs) rfl h.renderCustom⟩

end PageDistill
