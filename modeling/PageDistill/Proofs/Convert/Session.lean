import PageDistill.Markup.Html
import PageDistill.Proofs.Convert.Finishing
import PageDistill.Proofs.Convert.Interchangeable
import PageDistill.Proofs.Url.Compaction

/-!
# Conversions One After Another

What calls that share their options leave to each other.

A conversion writes to its options in one place: a new table of references takes the place of the
old one. So the calls of a session could reach each other through that table, through a copy of
the options that a call with settings of its own works on, or by failing half-way. They do not.
The table that is left is the one of the last call that came to the end of shortening on the
shared options themselves, even if it failed after that, and nothing else is left
(`Call.outcome_options`).

No stage of a conversion reads the table. Hooks are shown it with the options, and what they make
of it is their own affair. If they do not look at it, a conversion does the same whatever table it
starts from, and its answer is that of a fresh start (`session_isolated`).

## Main definitions

* `Source`, `Call`: What is converted, and a call with settings of its own.
* `Call.IgnoresReferences`: A call that brings no hook which looks at the table.
* `session`: Calls one after another on the same options.
* `Call.references?`: The references that a call leaves.

## Theorems

* `Call.markdown_withReferences`: A call answers the same whatever table it finds.
* `Call.outcome_options`, `Call.urlMap_canonical`: What a call leaves of the options.
* `session_isolated`: The whole of what calls leave to each other.
-/

namespace PageDistill

open Markdown (Node Cell)

/-- What a call converts: the text of a page, or an element of one. -/
inductive Source where
  | page (html : String)
  | element (e : Dom.Element)

/-- A call, with the settings that it changes for itself. -/
structure Call where
  settings : List (String × Setting)
  source : Source

/-- The settings of a call bring no hook that looks at the table of references. -/
def Call.IgnoresReferences (call : Call) : Prop :=
  ∀ refs, ∀ s ∈ call.settings, s.2.Overlooks (HookView.withReferences refs)

/-- The hooks of some options do not look at the table of references. -/
def Options.IgnoresReferences (o : Options) : Prop :=
  ∀ refs, o.HooksOverlook (HookView.withReferences refs)

/-- The references that a tree needs, if there is a tree and all of its URLs can be shortened. -/
def treeReferences? (tree : Conversion (List Node)) : Option ReferenceMap :=
  match tree.result with
  | .ok nodes =>
    let pass := Url.shortenAll [] nodes
    match pass.outcome.result with
    | .ok _ => some pass.refs
    | .error _ => none
  | .error _ => none

section

variable (readers : Readers)

/-- What a call on some options leaves. -/
def Call.outcome (o : Options) (call : Call) : Outcome :=
  match call.source with
  | .page html => convertPageWith readers o call.settings html
  | .element e => convertElementWith o call.settings e

/-- Calls one after another on the same options, and what each of them leaves. -/
def session (o : Options) : List Call → List Outcome
  | [] => []
  | call :: calls =>
    let outcome := call.outcome readers o
    outcome :: session outcome.options calls

/-- The element that a source names. -/
def Source.element? (o : Options) : Source → Conversion Dom.Element
  | .page html => chosenElement readers o html
  | .element e => return e

/-- The references that a call leaves: none unless URLs are to be shortened, and none if the call
    changes settings for itself. -/
def Call.references? (o : Options) (call : Call) : Option ReferenceMap :=
  if o.shortenUrls ∧ call.settings.isEmpty then
    treeReferences? (call.source.element? readers o >>= lower o 0)
  else none

/-- The references that the last of some calls leaves that leaves any. -/
def lastReferences (o : Options) (calls : List Call) : ReferenceMap :=
  (calls.filterMap (Call.references? readers o)).getLast?.getD o.urlMap

end

section

variable {o : Options} (ho : o.IgnoresReferences)

include ho

theorem Options.IgnoresReferences.withReferences (refs : ReferenceMap) :
    (o.withReferences refs).IgnoresReferences := fun other =>
  { ho other with }

omit ho

/-- A setting for the table changes nothing else, and other settings leave the table alone. -/
theorem override_withReferences (o : Options) (refs : ReferenceMap)
    (settings : List (String × Setting)) :
    ∃ left,
      (o.withReferences refs).override settings = (o.override settings).withReferences left := by
  have hset : ∀ (o : Options) refs name s, ∃ left,
      (o.withReferences refs).set name s = (o.set name s).withReferences left := by
    intro o refs name s
    unfold Options.set
    split <;> exact ⟨_, rfl⟩
  unfold Options.override
  induction settings generalizing o refs with
  | nil => exact ⟨refs, rfl⟩
  | cons setting settings ih =>
      rcases hset o refs setting.1 setting.2 with ⟨left, hleft⟩
      simp only [List.foldl_cons, hleft]
      exact ih _ left

include ho

/-- The answer of a call does not depend on the table that it finds. -/
theorem Call.markdown_withReferences (readers : Readers) {call : Call}
    (hcall : call.IgnoresReferences) (refs : ReferenceMap) :
    (call.outcome readers (o.withReferences refs)).markdown =
      (call.outcome readers o).markdown := by
  -- It is enough to look at the conversion itself, with settings or without.
  have hconvert : ∀ convert : Options → Outcome,
      (∀ (o : Options) refs, o.IgnoresReferences →
        (convert (o.withReferences refs)).markdown = (convert o).markdown) →
      (withOverrides (o.withReferences refs) call.settings convert).markdown =
        (withOverrides o call.settings convert).markdown := by
    intro convert h
    unfold withOverrides
    by_cases hempty : call.settings.isEmpty = true
    · rw [if_pos hempty, if_pos hempty]
      exact h o refs ho
    · rw [if_neg hempty, if_neg hempty]
      rcases override_withReferences o refs call.settings with ⟨left, hleft⟩
      rw [hleft]
      exact h _ left fun other => (ho other).override (hcall other)
  unfold Call.outcome
  cases call.source with
  | page html =>
      exact hconvert _ fun o refs ho =>
        (interchangeable_withReferences refs (ho refs)).convertPage_markdown readers html
  | element e =>
      exact hconvert _ fun o refs ho =>
        (interchangeable_withReferences refs (ho refs)).convertElement_markdown e

/-- Neither do the references that it leaves. -/
theorem Call.references?_withReferences (readers : Readers) (refs : ReferenceMap) (call : Call) :
    call.references? readers (o.withReferences refs) = call.references? readers o := by
  have helement : call.source.element? readers (o.withReferences refs) =
      call.source.element? readers o := by
    cases call.source <;> rfl
  have hlower : lower (o.withReferences refs) 0 = lower o 0 := by
    funext e
    exact (interchangeable_withReferences refs (ho refs)).lower_eq 0 e
  unfold Call.references?
  rw [helement, hlower]
  rfl

end

section

variable (o : Options)

/-- The references that come with a tree are those that it needs. -/
theorem semanticTree_references (e : Dom.Element) :
    ((semanticTree o e).result.toOption.bind Prod.snd) =
      if o.shortenUrls then treeReferences? (lower o 0 e) else none := by
  rw [semanticTree_result]
  unfold treeReferences?
  cases (lower o 0 e).result with
  | error fault => exact (ite_self none).symm
  | ok nodes =>
      change Option.bind (Except.toOption (if o.shortenUrls = true then _ else _)) _ = _
      by_cases hshorten : o.shortenUrls = true
      · rw [if_pos hshorten, if_pos hshorten]
        simp only
        cases (Url.shortenAll [] nodes).outcome.result <;> rfl
      · rw [if_neg hshorten, if_neg hshorten]
        rfl

/-- They take the place of the table; without any, the options stay as they were. -/
theorem finish_options (element : Conversion Dom.Element) :
    (finish o (element >>= semanticTree o)).options = o.withReferences
      ((if o.shortenUrls then treeReferences? (element >>= lower o 0) else none).getD
        o.urlMap) := by
  change optionsAfter o _ = _
  rw [optionsAfter_eq, Traced.result_bind]
  cases helement : element.result with
  | error fault =>
      unfold treeReferences?
      rw [Traced.result_bind, helement]
      exact congrArg (fun refs? : Option ReferenceMap => o.withReferences (refs?.getD o.urlMap))
        (ite_self none).symm
  | ok e =>
      have hlower : treeReferences? (element >>= lower o 0) = treeReferences? (lower o 0 e) := by
        unfold treeReferences?
        rw [Traced.result_bind, helement]
        rfl
      rw [hlower, ← semanticTree_references]
      rfl

/-- The references that a tree needs are made from nothing by interning keys. -/
theorem treeReferences?_canonical {tree : Conversion (List Node)} {refs : ReferenceMap}
    (h : treeReferences? tree = some refs) : refs.Canonical := by
  unfold treeReferences? at h
  cases htree : tree.result with
  | error fault =>
      rw [htree] at h
      exact nomatch h
  | ok nodes =>
      rw [htree] at h
      simp only at h
      split at h
      · rw [← Option.some.inj h]
        exact Url.shortenAll_canonical [] nodes ReferenceMap.canonical_nil
      · exact nomatch h

variable (readers : Readers)

/-- A call without settings of its own finishes the tree of its element. -/
theorem Call.outcome_unset (call : Call) (h : call.settings.isEmpty = true) :
    (call.outcome readers o).options =
      (finish o (call.source.element? readers o >>= semanticTree o)).options := by
  unfold Call.outcome convertPageWith convertElementWith withOverrides
  simp only [if_pos h]
  cases call.source with
  | page html => rfl
  | element e =>
      refine optionsAfter_congr ?_
      unfold Source.element?
      simp only [Traced.result_bind]
      rfl

/-- What a call leaves of the options: all but the table as it was, and the table too unless the
    call leaves references. -/
theorem Call.outcome_options (call : Call) :
    (call.outcome readers o).options =
      o.withReferences ((call.references? readers o).getD o.urlMap) := by
  unfold Call.references?
  by_cases hempty : call.settings.isEmpty = true
  · rw [call.outcome_unset o readers hempty, finish_options]
    simp only [hempty, and_true]
  · have hkept : (call.outcome readers o).options = o := by
      unfold Call.outcome convertPageWith convertElementWith withOverrides
      simp only [if_neg hempty]
      cases call.source <;> rfl
    rw [hkept, if_neg fun h => hempty h.2]
    rfl

/-- A call leaves a table without doubled keys or tokens if it finds one. -/
theorem Call.urlMap_canonical (call : Call) (h : o.urlMap.Canonical) :
    (call.outcome readers o).urlMap.Canonical := by
  unfold Outcome.urlMap
  rw [call.outcome_options]
  cases hrefs : call.references? readers o with
  | none => exact h
  | some refs =>
      unfold Call.references? at hrefs
      split at hrefs
      · exact treeReferences?_canonical hrefs
      · exact nomatch hrefs

/-- What one call leaves is what is there before the next ones. -/
theorem lastReferences_cons (call : Call) (calls : List Call) :
    lastReferences readers o (call :: calls) =
      (calls.filterMap (Call.references? readers o)).getLast?.getD
        ((call.references? readers o).getD o.urlMap) := by
  unfold lastReferences
  cases hleft : call.references? readers o with
  | none => rw [List.filterMap_cons_none hleft, Option.getD_none]
  | some refs =>
      rw [List.filterMap_cons_some hleft, List.getLast?_cons, Option.getD_some, Option.getD_some]

/-- Calls that share their options do not reach each other, if no hook looks at the table of
    references. After each call the options are what they were at the start but for the table,
    which is that of the last call so far that left one, and the answer of each call is what it
    would be on the same options with an empty table. -/
theorem session_isolated (ho : o.IgnoresReferences) (before : List Call) (call : Call)
    (after : List Call) (hcalls : ∀ other ∈ before ++ [call], other.IgnoresReferences) :
    (session readers o (before ++ call :: after))[before.length]? =
      some
        { markdown := (call.outcome readers (o.withReferences [])).markdown
          options := o.withReferences (lastReferences readers o (before ++ [call])) } := by
  induction before generalizing o with
  | nil =>
      have hmarkdown := call.markdown_withReferences ho readers
        (hcalls call List.mem_cons_self) []
      have hoptions := call.outcome_options o readers
      rw [List.nil_append, List.nil_append, lastReferences_cons, hmarkdown]
      change some (call.outcome readers o) =
        some ⟨_, o.withReferences ((call.references? readers o).getD o.urlMap)⟩
      rw [← hoptions]
  | cons first before ih =>
      -- The calls that follow start from other references, and leave what they would have left.
      have hreferences : Call.references? readers (first.outcome readers o).options =
          Call.references? readers o := by
        funext other
        rw [first.outcome_options]
        exact other.references?_withReferences ho readers _
      have hrest := ih (o := (first.outcome readers o).options)
        (by rw [first.outcome_options]; exact ho.withReferences _)
        fun other hmem => hcalls other (List.mem_cons_of_mem _ hmem)
      change (session readers (first.outcome readers o).options
        (before ++ call :: after))[before.length]? = _
      rw [hrest, List.cons_append, lastReferences_cons]
      unfold lastReferences
      rw [hreferences, first.outcome_options]
      rfl

end

/-- A hook that refuses a text, in words that depend on the options it is shown. The call in the
    middle shortens on a copy of its own, and the last one fails after its references were left. -/
theorem session_isolated_refused :
    let hook : NodeHook := fun view node _ =>
      match node with
      | .text "no" => .error (.refused (if view.debug then "loud" else "quiet"))
      | _ => .ok none
    let o := { strictWithMetadata with
      metadata := .off, shortenUrls := true, overrideNode := some hook }
    let first : Call := ⟨[], .page "<body><a href=\"https://a.org/b/c\">x</a>yes</body>"⟩
    let second : Call :=
      ⟨[("debug", .value (.bool true))], .page "<body><a href=\"https://a.org/d/e\">x</a>no</body>"⟩
    let third : Call := ⟨[], .page "<body><a href=\"https://a.org/f/g\">x</a>no</body>"⟩
    let readers := Markup.htmlReaders
    let left := session readers o [first, second, third]
    o.IgnoresReferences ∧ (∀ call ∈ [first, second, third], call.IgnoresReferences) ∧
      left[2]? = some
        { markdown := (third.outcome readers (o.withReferences [])).markdown
          options := o.withReferences (lastReferences readers o [first, second, third]) } ∧
      lastReferences readers o [first, second] = [("https://a.org/b/c", "ref0")] ∧
      lastReferences readers o [first, second, third] = [("https://a.org/f/g", "ref0")] ∧
      left.map (fun outcome => outcome.markdown.result) =
        [.ok "[x](ref0) yes", .error (.hook (.refused "loud")),
          .error (.hook (.refused "quiet"))] := by
  intro hook o first second third readers left
  -- The hook reads the setting for debugging, and no references.
  have ho : o.IgnoresReferences := by
    refine fun refs => ⟨nofun, nofun, fun ask hask => ?_, nofun⟩
    rw [← Option.some.inj hask]
    exact fun _ => rfl
  have hcalls : ∀ call ∈ [first, second, third], call.IgnoresReferences := by
    intro call hcall refs s hs
    simp only [List.mem_cons, List.not_mem_nil, or_false] at hcall
    rcases hcall with rfl | rfl | rfl
    · exact nomatch hs
    · rw [List.mem_singleton.mp hs]
      exact ⟨nofun, nofun⟩
    · exact nomatch hs
  exact ⟨ho, hcalls, session_isolated o readers ho [first, second] third [] hcalls,
    by decide +kernel, by decide +kernel, by decide +kernel⟩

end PageDistill
