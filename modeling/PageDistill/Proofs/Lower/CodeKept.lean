import PageDistill.Lower
import PageDistill.Proofs.Markdown.CodeReading
import PageDistill.Proofs.Outcomes

/-!
# What Becomes of Code

A code element of a page in the Markdown, and what can be read back there.

The text of the element becomes one node, with no more than the blank around it gone. Wherever the
node stands among others, its marks and the text between them are found in the Markdown as they were
written, with nothing next to them that would be taken for a part of the marks.

The marks are the same for all code. So what is read back is the code for all code that does not
spell its own marks, and only for this: a line of a block must not begin with a fence, nor the
language with an accent, and in code inside a line no accent may stand alone or at an end.

## Main definitions

* `IsLanguage`: The languages that a class can name.
* `StandsAsBlock`, `StandsAsSpan`: Code in a document, and when it is read back.

## Theorems

* `languageOf?_isLanguage`: A class names a language without blank.
* `lowerElement_code`: The node of a code element.
* `lowerElement_code_readBack`: When the code of an element is read back.
* `lowerElement_code_spells_marks`: Code that is cut at a mark of its own.
-/

namespace PageDistill

open Markdown (Node isTick graveAccent codeMark codeFence inlineCode codeBlock renderContent
  AtLineStart ticksAtFront readFenced tickRuns readSpan PlainEnds)

/-- A language that a class can name: a word without blank. -/
def IsLanguage (language : Option String) : Prop :=
  ∀ name ∈ language, name.toList ≠ [] ∧ ∀ c ∈ name.toList, Text.isBlank c = false

/-- Code stands in a document on lines of its own, between fences. A reader that begins at the first
    fence gets the code and what is below the block exactly if the language does not make the fence
    longer and no line of the code begins with a fence. -/
def StandsAsBlock (content : String) (language : Option String) (document : List Char) : Prop :=
  ∃ above below, document = above ++ codeBlock content language ++ '\n' :: below ∧
    AtLineStart above ∧
    Text.splitOn '\n' (codeBlock content language ++ '\n' :: below) =
      (codeFence ++ (language.getD "").toList) ::
        (Text.splitOn '\n' content.toList ++ codeFence :: Text.splitOn '\n' below) ∧
    ∀ rest, readFenced (codeBlock content language ++ '\n' :: below) = some (content.toList, rest) ↔
      rest = below ∧ ticksAtFront (language.getD "").toList = 0 ∧
        ∀ line ∈ Text.splitOn '\n' content.toList, ticksAtFront line < 3

/-- Code stands in a document between marks, with no accent in front of them or after them. A reader
    that begins at the first mark gets the code and what is after the other one exactly if no accent
    stands at the ends of the code or alone in it. -/
def StandsAsSpan (content : String) (document : List Char) : Prop :=
  ∃ above below, document = above ++ inlineCode content ++ below ∧
    (∀ c ∈ above.getLast?, isTick c = false) ∧
    ∀ rest, readSpan (inlineCode content ++ below) = some (content.toList, rest) ↔
      rest = below ∧ PlainEnds content.toList ∧ codeMark ∉ tickRuns content.toList

theorem languageOf?_isLanguage (className : String) : IsLanguage (languageOf? className) := by
  intro name hname
  unfold languageOf? at hname
  cases hdrop : dropStart? "language-" className with
  | none =>
      rw [hdrop] at hname
      exact absurd hname nofun
  | some rest =>
      rw [hdrop] at hname
      simp only at hname
      -- The word may have lost a line end; what is tested is what is left.
      generalize (if rest.toList.getLast? = some '\n' then rest.toList.dropLast else rest.toList) =
        word at hname
      split at hname
      · exact absurd hname nofun
      · rename_i hproper
        rw [not_or] at hproper
        rw [← Option.some.inj hname, String.toList_ofList]
        exact ⟨mt List.isEmpty_iff.mpr hproper.1, fun c hc =>
          Bool.eq_false_iff.mpr fun hblank => hproper.2 (List.any_eq_true.mpr ⟨c, hc, hblank⟩)⟩

/-- A line end is blank. -/
theorem IsLanguage.lineEnd_not_mem {language : Option String} (h : IsLanguage language) :
    '\n' ∉ (language.getD "").toList := by
  cases language with
  | none => exact List.not_mem_nil
  | some name => exact fun hmem => absurd ((h name rfl).2 '\n' hmem) (by decide)

/-- Code that is not blank becomes one node, with its text trimmed. -/
theorem lowerElement_code (o : Options) (lower : Descent) (indent : Int) (e : Dom.Element)
    (hcode : Dom.categoryOf o.metadata.wanted e.name = .code)
    (hfilled : Text.isAllBlank e.text = false) :
    (lowerElement o lower indent e).result =
      .ok [.code (String.ofList (Text.trim e.text)) (e.tag.classes.findSome? languageOf?)
        (e.parent != "pre")] := by
  have hne : ¬ (Text.trim e.text).isEmpty = true := fun hempty => by
    rw [(Text.trim_eq_nil_iff _).mp (List.isEmpty_iff.mp hempty)] at hfilled
    exact absurd hfilled Bool.noConfusion
  rw [lowerElement, Traced.result_debugIf_bind, hcode]
  change Except.ok (lowerCode e) = _
  rw [lowerCode, if_neg hne]

section

variable {r : Options} (hr : r.WithoutNodeHooks) (start : Int) (front back : List Node)
variable {content : String} (hfilled : content.toList ≠ [])

include hr hfilled

theorem renderContent_codeBlock {language : Option String} (hlanguage : IsLanguage language) :
    ∃ document, renderContent r start (front ++ .code content language false :: back) =
      .ok document ∧ StandsAsBlock content language document := by
  let node : Node := .code content language false
  have hshows : node.ShowsBlock start := ⟨rfl, fun hnil => by
    have hmem : '\n' ∈ node.block start := by simp [node, Node.block, codeBlock]
    rw [hnil] at hmem
    exact List.not_mem_nil hmem⟩
  rcases Markdown.layOut_around hshows front back with ⟨above, below, heq, hstart, -⟩
  exact ⟨_, Markdown.renderNodes_unhooked hr start [] _, above, below, heq, hstart,
    Markdown.splitOn_codeBlock hlanguage.lineEnd_not_mem below,
    Markdown.readFenced_codeBlock_iff hfilled hlanguage.lineEnd_not_mem below⟩

theorem renderContent_inlineCode (language : Option String) :
    ∃ document, renderContent r start (front ++ .code content language true :: back) =
      .ok document ∧ StandsAsSpan content document := by
  rcases Markdown.layOut_inlineCode content language start front back with
    ⟨above, below, heq, habove, hbelow⟩
  exact ⟨_, Markdown.renderNodes_unhooked hr start [] _, above, below, heq, habove,
    Markdown.readSpan_inlineCode_iff hfilled hbelow⟩

end

/-- The code of an element is read back from the Markdown, wherever its node stands among others,
    exactly if it does not spell the marks around it. -/
theorem lowerElement_code_readBack (o : Options) (lower : Descent) (indent : Int) (e : Dom.Element)
    (hcode : Dom.categoryOf o.metadata.wanted e.name = .code)
    (hfilled : Text.isAllBlank e.text = false) :
    ∃ content named, content.toList = Text.trim e.text ∧ IsLanguage named ∧
      (lowerElement o lower indent e).result = .ok [.code content named (e.parent != "pre")] ∧
      ∀ r : Options, r.WithoutNodeHooks → ∀ (start : Int) (front back : List Node)
        (language : Option String), IsLanguage language →
        (∃ document, renderContent r start (front ++ .code content language false :: back) =
          .ok document ∧ StandsAsBlock content language document) ∧
        ∃ document, renderContent r start (front ++ .code content language true :: back) =
          .ok document ∧ StandsAsSpan content document := by
  have hcontent : (String.ofList (Text.trim e.text)).toList ≠ [] := by
    rw [String.toList_ofList, Ne, Text.trim_eq_nil_iff, hfilled]
    exact Bool.noConfusion
  have hnamed : IsLanguage (e.tag.classes.findSome? languageOf?) := by
    intro name hname
    rcases List.exists_of_findSome?_eq_some hname with ⟨className, -, hlanguage⟩
    exact languageOf?_isLanguage className name hlanguage
  exact ⟨_, _, String.toList_ofList, hnamed, lowerElement_code o lower indent e hcode hfilled,
    fun r hr start front back language hlanguage =>
      ⟨renderContent_codeBlock hr start front back hcontent hlanguage,
        renderContent_inlineCode hr start front back hcontent language⟩⟩

/-- Two accents in a row may stand in code, and so may the beginning of a fence in front of a
    line. -/
theorem lowerElement_code_readBack_accents :
    let e : Dom.Element := ⟨"p", .ordinary, ⟨"code", [("class", .list ["hl", "language-c"])]⟩,
      [.text " a``b\n``c d\n"]⟩
    let o := Options.default
    Dom.categoryOf o.metadata.wanted e.name = .code ∧ Text.isAllBlank e.text = false ∧
      o.WithoutNodeHooks ∧ IsLanguage (some "c") ∧
      (lowerElement o (lowerLevels o 3) 0 e).result =
        .ok [.code "a``b\n``c d" (some "c") true] ∧
      (∃ document, renderContent o 0 [.text "x", .code "a``b\n``c d" (some "c") false, .text "y"] =
        .ok document ∧ StandsAsBlock "a``b\n``c d" (some "c") document) ∧
      (∃ document, renderContent o 0 [.text "x", .code "a``b\n``c d" (some "c") true, .text "y"] =
        .ok document ∧ StandsAsSpan "a``b\n``c d" document) ∧
      readFenced "```c\na``b\n``c d\n```\ny".toList = some ("a``b\n``c d".toList, ['y']) ∧
      readSpan "`a``b\n``c d` y".toList = some ("a``b\n``c d".toList, [' ', 'y']) := by
  intro e o
  have hcode : Dom.categoryOf o.metadata.wanted e.name = .code := by decide
  have hfilled : Text.isAllBlank e.text = false := by decide
  have hhooks : o.WithoutNodeHooks := ⟨rfl, rfl⟩
  have hlanguage : IsLanguage (some "c") := fun name hname => by
    rw [← Option.some.inj hname]
    exact ⟨by decide, fun c hc => by rw [List.mem_singleton.mp hc]; decide⟩
  -- The content is trimmed, and its second class names the language.
  have hlowered : (lowerElement o (lowerLevels o 3) 0 e).result =
      .ok [.code "a``b\n``c d" (some "c") true] := by
    have hcontent : String.ofList (Text.trim e.text) = "a``b\n``c d" := by decide +kernel
    have hnamed : e.tag.classes.findSome? languageOf? = some "c" := by decide +kernel
    rw [lowerElement_code o _ 0 e hcode hfilled, hcontent, hnamed]
    rfl
  rcases lowerElement_code_readBack o (lowerLevels o 3) 0 e hcode hfilled with
    ⟨content, named, -, -, hresult, hall⟩
  rw [hlowered] at hresult
  simp only [Except.ok.injEq, List.cons.injEq, Node.code.injEq] at hresult
  obtain ⟨⟨rfl, rfl, -⟩, -⟩ := hresult
  have h := hall o hhooks 0 [.text "x"] [.text "y"] (some "c") hlanguage
  exact ⟨hcode, hfilled, hhooks, hlanguage, hlowered, h.1, h.2, by decide +kernel,
    by decide +kernel⟩

/-- A line of code that begins with a fence ends the block before its own last line, and an accent
    that stands alone ends the code inside a line. -/
theorem lowerElement_code_spells_marks :
    let fenced : Dom.Element := ⟨"pre", .ordinary, ⟨"code", []⟩, [.text "a\n```\nb"]⟩
    let accent : Dom.Element := ⟨"p", .ordinary, ⟨"code", []⟩, [.text "a`b"]⟩
    let o := Options.default
    (lowerElement o (lowerLevels o 3) 0 fenced).result = .ok [.code "a\n```\nb" none false] ∧
      renderContent o 0 [.code "a\n```\nb" none false] = .ok "```\na\n```\nb\n```\n".toList ∧
      readFenced "```\na\n```\nb\n```\n".toList = some (['a'], "b\n```\n".toList) ∧
      (lowerElement o (lowerLevels o 3) 0 accent).result = .ok [.code "a`b" none true] ∧
      renderContent o 0 [.code "a`b" none true] = .ok "`a`b`".toList ∧
      codeMark ∈ tickRuns "a`b".toList ∧
      readSpan "`a`b`".toList = some (['a'], ['b', graveAccent]) :=
  ⟨rfl, rfl, by decide +kernel, rfl, rfl, by decide +kernel, by decide +kernel⟩

end PageDistill
