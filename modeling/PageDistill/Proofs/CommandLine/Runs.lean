import PageDistill.Proofs.CommandLine.Stages
import PageDistill.Proofs.Convert.Failures
import PageDistill.Proofs.Text.Utf8RoundTrip

/-!
# How Runs End

What a run answers for, what it lets out, and what it delivers.

A run has a problem or comes to its end (`stops_or_saved`), and either way tells how it ends. It
answers for some problems with a message and the code 1. It is meant to do so for all of them, and
does not: bytes that are no text, texts that cannot be written as bytes, errors of a conversion
other than that of a reader that is not there, paths that no machine can have, a table that cannot
be drawn and a level without a value end it as faults. An error of a conversion that is let out has
its cause in the reader, in the machine, or in an element of the page.

A run without a problem has written the Markdown and then the table of references, if files were
asked for. The table is the later of the two, so it is found under its path in any case, and the
Markdown is found unless both paths lead to one place.

## Main definitions

* `Stops`: The problem of a run, with what the run leaves.
* `Saved`, `Delivered`: A run without a problem, and what it leaves.
* `Answers`: What a run may do.

## Theorems

* `runOn_of_stops`, `runOn_of_saved`: How a run ends with a problem and without one.
* `stops_or_saved`: Every run has a problem or comes to its end.
* `page_of_stops`: What is at fault for an error that is let out.
* `delivered_of_saved`: What was asked for is found in the files.
* `runOn_answers`: A run answers for its problems as far as it does, and delivers without one.
* `runOn_undecodable`: An input that is no text is not answered for.
-/

namespace PageDistill

namespace CommandLine

/-- The problem of a run, with what the run leaves. -/
inductive Stops (a : Arguments) (t : FileTree) (outside : Outside) : Problem → Left → Prop where
  /-- The level of the log has no value. -/
  | logLevel (h : a.debug = false ∧ a.logLevel = .nothing) :
      Stops a t outside .logLevel ⟨"", t⟩
  /-- The options are invalid. -/
  | options (hlevel : ¬(a.debug = false ∧ a.logLevel = .nothing)) (h : optionFaults a ≠ 0) :
      Stops a t outside .options ⟨"", t⟩
  /-- The input cannot be read as text. -/
  | input {fault : AccessFault} (hstart : Starts a)
      (h : inputOf t outside a.input = .error fault) : Stops a t outside (.input fault) ⟨"", t⟩
  /-- The page cannot be converted. -/
  | page {html : List Char} {e : ConversionError} (hstart : Starts a)
      (hinput : inputOf t outside a.input = .ok html)
      (h : (pageOf outside a html).markdown.result = .error e) :
      Stops a t outside (.page e) ⟨"", t⟩
  /-- An output cannot be written. -/
  | output {html : List Char} {markdown : String} {fault : AccessFault} {left : Left}
      (hstart : Starts a) (hinput : inputOf t outside a.input = .ok html)
      (hpage : (pageOf outside a html).markdown.result = .ok markdown)
      (h : written outside t a markdown (pageOf outside a html).urlMap = (some fault, left)) :
      Stops a t outside (.output fault) left
  /-- The table cannot be drawn, after everything was written. -/
  | table {html : List Char} {markdown reason : String} {left : Left}
      (hstart : Starts a) (hinput : inputOf t outside a.input = .ok html)
      (hpage : (pageOf outside a html).markdown.result = .ok markdown)
      (hwritten : written outside t a markdown (pageOf outside a html).urlMap = (none, left))
      (hshow : a.showUrlMap = true)
      (h : outside.drawn (pageOf outside a html).urlMap = .error reason) :
      Stops a t outside (.table reason) left

/-- What a run without a problem comes to: a text, its Markdown, and what is left when all of it was
    written. -/
structure Saved (a : Arguments) (t : FileTree) (outside : Outside) (html : List Char)
    (markdown : String) (left : Left) : Prop where
  start : Starts a
  input : inputOf t outside a.input = .ok html
  page : (pageOf outside a html).markdown.result = .ok markdown
  written : written outside t a markdown (pageOf outside a html).urlMap = (none, left)
  drawn : a.showUrlMap = true → ∃ table, outside.drawn (pageOf outside a html).urlMap = .ok table

/-- A run ended with some code and messages, and left something. -/
structure EndsWith (ran : Ending × FileTree) (code : Except RunFault Nat) (stderr : String)
    (left : Left) : Prop where
  code : ran.1.code = code
  stderr : ran.1.stderr = stderr
  left : left = ⟨ran.1.stdout, ran.2⟩

section

variable {t : FileTree} {outside : Outside} {words : List String} {a : Arguments}

/-- A problem that comes up before anything is written leaves everything as it was. -/
theorem Stops.untouched {problem : Problem} {left : Left} (h : Stops a t outside problem left)
    (hearly : problem.beforeWriting = true) : left = ⟨"", t⟩ := by
  cases h with
  | output => exact nomatch hearly
  | table => exact nomatch hearly
  | _ => rfl

section

variable (hwords : parseArguments words = .ok (.convert a))

include hwords

/-- A run with a problem ends as the problem says. -/
theorem runOn_of_stops {problem : Problem} {left : Left} (h : Stops a t outside problem left) :
    EndsWith (runOn t outside words) problem.code (linesText (problem.lines a)) left := by
  cases h with
  | logLevel h =>
      have hlevel : (!a.debug) = true ∧ a.logLevel = .nothing := by simpa using h
      unfold runOn run
      simp only [hwords, if_pos hlevel]
      exact ⟨rfl, rfl, rfl⟩
  | options hlevel h =>
      have hlevel : ¬((!a.debug) = true ∧ a.logLevel = .nothing) := by simpa using hlevel
      unfold runOn run
      simp only [hwords, if_neg hlevel, if_pos h]
      exact ⟨rfl, rfl, rfl⟩
  -- From here on the arguments fit, and the run goes from stage to stage.
  | input hstart h =>
      rcases runOn_starts hwords hstart with ⟨_, hrun⟩
      rw [hrun, h]
      exact ⟨rfl, rfl, rfl⟩
  | page hstart hinput h =>
      rcases runOn_starts hwords hstart with ⟨_, hrun⟩
      rcases convertInput_error (t := t) h with ⟨_, hconvert⟩
      rw [hrun, hinput]
      simp only [hconvert]
      exact ⟨rfl, rfl, rfl⟩
  | output hstart hinput hpage h =>
      rcases runOn_starts hwords hstart with ⟨_, hrun⟩
      rcases convertInput_ok hpage h with ⟨_, hconvert⟩
      rw [hrun, hinput]
      simp only [hconvert]
      exact ⟨rfl, rfl, rfl⟩
  | table hstart hinput hpage hwritten hshow h =>
      rcases runOn_starts hwords hstart with ⟨_, hrun⟩
      rcases convertInput_ok hpage hwritten with ⟨_, hconvert⟩
      rw [hrun, hinput]
      simp only [hconvert, Outside.farewell, if_pos hshow, h]
      exact ⟨rfl, rfl, rfl⟩

/-- A run without a problem ends with the code 0. -/
theorem runOn_of_saved {html : List Char} {markdown : String} {left : Left}
    (h : Saved a t outside html markdown left) :
    ∃ stderr, EndsWith (runOn t outside words) (.ok 0) stderr left := by
  rcases runOn_starts hwords h.start with ⟨_, hrun⟩
  rcases convertInput_ok h.page h.written with ⟨_, hconvert⟩
  rw [hrun, h.input]
  simp only [hconvert, Outside.farewell]
  by_cases hshow : a.showUrlMap = true
  · rcases h.drawn hshow with ⟨table, htable⟩
    simp only [if_pos hshow, htable]
    exact ⟨_, rfl, rfl, rfl⟩
  · simp only [if_neg hshow]
    exact ⟨_, rfl, rfl, rfl⟩

end

/-- Every run has a problem or comes to its end. -/
theorem stops_or_saved (a : Arguments) (t : FileTree) (outside : Outside) :
    (∃ problem left, Stops a t outside problem left) ∨
      ∃ html markdown left, Saved a t outside html markdown left := by
  by_cases hlevel : a.debug = false ∧ a.logLevel = .nothing
  · exact Or.inl ⟨_, _, .logLevel hlevel⟩
  by_cases hoptions : optionFaults a = 0
  · have hstart : Starts a := ⟨hlevel, hoptions⟩
    cases hinput : inputOf t outside a.input with
    | error fault => exact Or.inl ⟨_, _, .input hstart hinput⟩
    | ok html =>
        cases hpage : (pageOf outside a html).markdown.result with
        | error e => exact Or.inl ⟨_, _, .page hstart hinput hpage⟩
        | ok markdown =>
            cases hwritten : written outside t a markdown (pageOf outside a html).urlMap with
            | mk fault? left =>
                cases fault? with
                | some fault => exact Or.inl ⟨_, _, .output hstart hinput hpage hwritten⟩
                | none =>
                    -- What cannot be drawn is no problem unless the table is to be shown.
                    cases hdrawn : outside.drawn (pageOf outside a html).urlMap with
                    | ok table =>
                        exact Or.inr ⟨html, markdown, left, hstart, hinput, hpage, hwritten,
                          fun _ => ⟨table, hdrawn⟩⟩
                    | error reason =>
                        by_cases hshow : a.showUrlMap = true
                        · exact Or.inl
                            ⟨_, _, .table hstart hinput hpage hwritten hshow hdrawn⟩
                        · exact Or.inr ⟨html, markdown, left, hstart, hinput, hpage, hwritten,
                            fun h => absurd h hshow⟩
  · exact Or.inl ⟨_, _, .options hlevel hoptions⟩

end

/-- What a run without a problem leaves. -/
structure Delivered (a : Arguments) (t : FileTree) (markdown : String) (refs : ReferenceMap)
    (left : Left) : Prop where
  /-- Without a file for it, the Markdown is shown with a line end after it. -/
  shown : given a.output = none → left.stdout = markdown ++ "\n"
  /-- Otherwise the file holds it, unless the table was written in its place. -/
  output : ∀ path, given a.output = some path → left.stdout = "" ∧
    ((∀ table, given a.urlMap = some table → t.resolve table ≠ t.resolve path) →
      left.tree.read path = .ok (Text.encodeUtf8 (markdown ++ "\n").toList))
  /-- The file of the table holds text that is read as the table. -/
  table : ∀ path, given a.urlMap = some path → ∃ bytes s, left.tree.read path = .ok bytes ∧
    Text.decodeUtf8 bytes = .ok s ∧ Json.read s = .ok (tableValue refs)

/-- Where nothing fails, all files are written, and what is shown is the Markdown without a file. -/
theorem written_none {t : FileTree} {outside : Outside} {a : Arguments} {markdown : String}
    {refs : ReferenceMap} {left : Left}
    (h : written outside t a markdown refs = (none, left)) :
    saveAll outside t (filesOf a markdown refs) = (none, left.tree) ∧
      (given a.output = none → left.stdout = markdown ++ "\n") ∧
      ∀ path, given a.output = some path → left.stdout = "" := by
  unfold written at h
  rcases hsaved : saveAll outside t (filesOf a markdown refs) with ⟨fault?, after⟩
  simp only [hsaved] at h
  cases houtput : given a.output with
  | none =>
      -- Without a file, the Markdown is shown before anything is written.
      simp only [houtput] at h
      cases hdisplay : outside.display (markdown ++ "\n") with
      | some refused =>
          rw [hdisplay] at h
          exact absurd (Prod.mk.inj h).1 (Option.some_ne_none _)
      | none =>
          rw [hdisplay] at h
          rcases Prod.mk.inj h with ⟨rfl, rfl⟩
          exact ⟨rfl, fun _ => rfl, fun path hpath => absurd hpath.symm (Option.some_ne_none path)⟩
  | some output =>
      simp only [houtput] at h
      rcases Prod.mk.inj h with ⟨rfl, rfl⟩
      exact ⟨rfl, fun hnone => absurd hnone (Option.some_ne_none output), fun _ _ => rfl⟩

/-- What was asked for is found in the files. -/
theorem delivered_of_saved {a : Arguments} {t : FileTree} {outside : Outside} {html : List Char}
    {markdown : String} {left : Left} (h : Saved a t outside html markdown left) :
    Delivered a t markdown (pageOf outside a html).urlMap left := by
  rcases written_none h.written with ⟨hsaved, hshown, hsilent⟩
  -- Whatever was written before, the table is written last.
  have htable : ∀ (before : FileTree) path,
      before.write path (Text.encodeUtf8 (urlMapText (pageOf outside a html).urlMap)) =
        .ok left.tree →
      ∃ bytes s, left.tree.read path = .ok bytes ∧ Text.decodeUtf8 bytes = .ok s ∧
        Json.read s = .ok (tableValue (pageOf outside a html).urlMap) :=
    fun before path hwrite => ⟨_, _, FileTree.read_write hwrite,
      Text.decodeUtf8_encodeUtf8 _, read_table outside a html⟩
  unfold filesOf at hsaved
  cases houtput : given a.output with
  | none =>
      refine ⟨fun _ => hshown houtput, fun path hpath => (nomatch houtput.symm.trans hpath),
        fun path hpath => ?_⟩
      rw [houtput, hpath] at hsaved
      exact htable t path (saveAll_single hsaved)
  | some output =>
      rw [houtput] at hsaved
      rcases saveAll_cons hsaved with ⟨next, hfirst, hrest⟩
      refine ⟨fun hnone => (nomatch houtput.symm.trans hnone), fun path hpath =>
        ⟨hsilent path hpath, ?_⟩, fun path hpath => ?_⟩
      · rw [← Option.some.inj (houtput.symm.trans hpath)]
        intro hplaces
        cases hurlMap : given a.urlMap with
        | none =>
            rw [hurlMap] at hrest
            rw [← (Prod.mk.inj hrest).2]
            exact FileTree.read_write hfirst
        | some table =>
            rw [hurlMap] at hrest
            have hsecond := saveAll_single hrest
            refine FileTree.read_write_of_ne hsecond ?_ (FileTree.read_write hfirst)
            -- The two paths lead to the places that they led to at the start.
            intro heq
            rcases FileTree.write_ok_iff.mp hsecond with ⟨place, hplace, _⟩
            have hother := heq.trans hplace
            rw [FileTree.resolve_write hfirst] at hplace hother
            exact hplaces table hurlMap (hplace.trans hother.symm)
      · rw [hpath] at hrest
        exact htable next path (saveAll_single hrest)

theorem Problem.code_eq_error_iff {problem : Problem} {fault : RunFault} :
    problem.code = .error fault ↔ problem.fault? = some fault := by
  unfold Problem.code
  cases problem.fault? with
  | none => exact ⟨nofun, nofun⟩
  | some other => simp only [Except.error.injEq, Option.some.injEq]

theorem Problem.code_eq_ok_iff {problem : Problem} {code : Nat} :
    problem.code = .ok code ↔ problem.fault? = none ∧ code = 1 := by
  unfold Problem.code
  cases problem.fault? with
  | none => simp only [Except.ok.injEq, true_and, eq_comm]
  | some other => exact ⟨nofun, fun h => (nomatch h.1)⟩

/-- An error of a conversion that is let out has its cause in the reader, in the machine, or in an
    element of the page. -/
theorem page_of_stops {t : FileTree} {outside : Outside} {a : Arguments} {problem : Problem}
    {left : Left} {e : ConversionError} (h : Stops a t outside problem left)
    (hfault : problem.fault? = some (.conversion e)) :
    ∃ html, inputOf t outside a.input = .ok html ∧
      MachineFault outside.machine (optionsOf a) (String.ofList html) e := by
  cases h with
  | logLevel _ => exact nomatch hfault
  | options _ _ => exact nomatch hfault
  | @input fault _ _ => cases fault <;> exact nomatch hfault
  | @output _ _ fault _ _ _ _ _ => cases fault <;> exact nomatch hfault
  | table => exact nomatch hfault
  | @page html error hstart hinput h =>
      -- An error that is let out is the error of the page, whatever its kind.
      have hsame : error = e := by
        cases error with
        | reader fault =>
            cases fault with
            | unavailable => exact nomatch hfault
            | _ => exact RunFault.conversion.inj (Option.some.inj hfault)
        | _ => exact RunFault.conversion.inj (Option.some.inj hfault)
      rw [← hsame]
      exact ⟨html, hinput, convertPageOn_error ⟨rfl, rfl⟩ ⟨rfl, rfl⟩ hstart.validated h⟩

/-- What a run answers that was asked for by some arguments, by how it ended and by the files that
    it left. -/
structure Answers (a : Arguments) (t : FileTree) (outside : Outside) (ending : Ending)
    (after : FileTree) : Prop where
  /-- What is let out is the fault of a problem that the run does not answer for. -/
  fault : ∀ fault, ending.code = .error fault ↔
    ∃ problem, Stops a t outside problem ⟨ending.stdout, after⟩ ∧ problem.fault? = some fault
  /-- Of a conversion that is one of the ways in which a conversion without hooks can fail. -/
  page : ∀ e, ending.code = .error (.conversion e) →
    ∃ html, inputOf t outside a.input = .ok html ∧
      MachineFault outside.machine (optionsOf a) (String.ofList html) e
  code : ∀ code, ending.code = .ok code → code = 0 ∨ code = 1
  /-- The code is 1 exactly if the run has a problem that it answers for. -/
  failure : ending.code = .ok 1 ↔
    ∃ problem, Stops a t outside problem ⟨ending.stdout, after⟩ ∧ problem.fault? = none
  /-- The code is 0 exactly if the run has no problem at all. -/
  success : ending.code = .ok 0 ↔ ¬∃ problem left, Stops a t outside problem left
  /-- The messages are those of the problem, if there is one. -/
  told : ∀ problem left, Stops a t outside problem left →
    left = ⟨ending.stdout, after⟩ ∧ ending.stderr = linesText (problem.lines a)
  /-- A problem that comes up before anything is written leaves everything as it was. -/
  untouched : ∀ problem left, Stops a t outside problem left → problem.beforeWriting = true →
    after = t ∧ ending.stdout = ""
  /-- With the code 0 the page was converted and what was asked for was written. -/
  delivered : ending.code = .ok 0 →
    ∃ html markdown, inputOf t outside a.input = .ok html ∧
      (pageOf outside a html).markdown.result = .ok markdown ∧
      Delivered a t markdown (pageOf outside a html).urlMap ⟨ending.stdout, after⟩

/-- Whatever is around a run, with arguments that can be read it ends with a code or lets a fault
    out. It answers for its problems with the code 1, but for those of certain kinds, which it lets
    out, and without a problem it writes the Markdown with a line end after it, and a table that is
    read as the one that the conversion left. -/
theorem runOn_answers (t : FileTree) (outside : Outside) (words : List String) (a : Arguments)
    (hwords : parseArguments words = .ok (.convert a)) :
    Answers a t outside (runOn t outside words).1 (runOn t outside words).2 := by
  -- A run ends in one way only, so every problem that it has tells how this run ended.
  have hstops : ∀ problem left, Stops a t outside problem left →
      EndsWith (runOn t outside words) problem.code (linesText (problem.lines a)) left :=
    fun _ _ h => runOn_of_stops hwords h
  have hcases : (∃ problem left, Stops a t outside problem left) ∨
      ∃ html markdown left, Saved a t outside html markdown left ∧
        ∃ stderr, EndsWith (runOn t outside words) (.ok 0) stderr left := by
    refine (stops_or_saved a t outside).imp_right ?_
    rintro ⟨html, markdown, left, h⟩
    exact ⟨html, markdown, left, h, runOn_of_saved hwords h⟩
  rcases hran : runOn t outside words with ⟨ending, after⟩
  rw [hran] at hstops hcases
  -- So with a problem the code is not 0, and without one it is.
  have hcode : ∀ problem left, Stops a t outside problem left → ending.code = problem.code :=
    fun problem left h => (hstops problem left h).code
  have hzero : ending.code = .ok 0 → ¬∃ problem left, Stops a t outside problem left := by
    rintro hok ⟨problem, left, h⟩
    exact absurd (Problem.code_eq_ok_iff.mp ((hcode problem left h).symm.trans hok)).2
      Nat.zero_ne_one
  have hstopped : ending.code ≠ .ok 0 →
      ∃ problem, Stops a t outside problem ⟨ending.stdout, after⟩ := by
    intro hne
    rcases hcases with ⟨problem, left, h⟩ | ⟨_, _, _, _, _, hended⟩
    · exact ⟨problem, (hstops problem left h).left ▸ h⟩
    · exact absurd hended.code hne
  have hfault : ∀ fault, ending.code = .error fault →
      ∃ problem, Stops a t outside problem ⟨ending.stdout, after⟩ ∧
        problem.fault? = some fault := by
    intro fault hfault
    rcases hstopped (by rw [hfault]; exact nofun) with ⟨problem, h⟩
    exact ⟨problem, h, Problem.code_eq_error_iff.mp ((hcode _ _ h).symm.trans hfault)⟩
  exact
    { fault := fun fault => ⟨hfault fault, fun ⟨problem, h, hlet⟩ =>
        (hcode problem _ h).trans (Problem.code_eq_error_iff.mpr hlet)⟩
      page := fun e he =>
        let ⟨_, h, hlet⟩ := hfault _ he
        page_of_stops h hlet
      code := by
        intro code hok
        rcases hcases with ⟨problem, left, h⟩ | ⟨_, _, _, _, _, hended⟩
        · exact Or.inr (Problem.code_eq_ok_iff.mp ((hcode problem left h).symm.trans hok)).2
        · exact Or.inl (Except.ok.inj (hok.symm.trans hended.code))
      failure := by
        constructor
        · intro hone
          rcases hstopped (by rw [hone]; exact nofun) with ⟨problem, h⟩
          exact ⟨problem, h, (Problem.code_eq_ok_iff.mp ((hcode _ _ h).symm.trans hone)).1⟩
        · rintro ⟨problem, h, hanswered⟩
          exact (hcode problem _ h).trans (Problem.code_eq_ok_iff.mpr ⟨hanswered, rfl⟩)
      success := by
        refine ⟨hzero, fun hnone => ?_⟩
        rcases hcases with hproblem | ⟨_, _, _, _, _, hended⟩
        · exact absurd hproblem hnone
        · exact hended.code
      told := fun problem left h => ⟨(hstops problem left h).left, (hstops problem left h).stderr⟩
      untouched := by
        intro problem left h hearly
        have hleft := (hstops problem left h).left.symm.trans (h.untouched hearly)
        exact ⟨congrArg Left.tree hleft, congrArg Left.stdout hleft⟩
      delivered := by
        intro hok
        rcases hcases with hproblem | ⟨html, markdown, left, h, _, hended⟩
        · exact absurd hproblem (hzero hok)
        · exact ⟨html, markdown, h.input, h.page, hended.left ▸ delivered_of_saved h⟩ }

/-- The line ends of a file are unified, its letters may lie outside of ASCII, and the Markdown and
    the table go to files of their own. -/
theorem runOn_answers_files :
    let html := "<p>caf\u00e9\r\n<a href=\"https://a.org/b/c/d\">e</a></p>"
    let t : FileTree := ⟨[(["in.html"], Text.encodeUtf8 html.toList)], []⟩
    let words := ["in.html", "-o", "out.md", "--url-map=refs.json", "--parser", "html.parser"]
    let a := { Arguments.default with
      input := "in.html", output := some "out.md", urlMap := some "refs.json",
      parser := .text "html.parser" }
    let outside := Outside.ordinary []
    let ran := runOn t outside words
    parseArguments words = .ok (.convert a) ∧ Answers a t outside ran.1 ran.2 ∧
      ran.1.code = .ok 0 ∧ ran.1.stdout = "" ∧
      ran.2.read "out.md" = .ok (Text.encodeUtf8 "caf\u00e9 [e](ref0)\n".toList) ∧
      ran.2.read "refs.json" =
        .ok (Text.encodeUtf8 "\x7b\n  \"https://a.org/b/c/d\": \"ref0\"\n\x7d".toList) := by
  intro html t words a outside ran
  have hwords : parseArguments words = .ok (.convert a) := by decide +kernel
  exact ⟨hwords, runOn_answers t outside words a hwords, by decide +kernel, by decide +kernel,
    by decide +kernel, by decide +kernel⟩

/-- A byte that is no text is not reported as an input that cannot be read: the run ends in a fault
    of its own. -/
theorem runOn_undecodable :
    let t : FileTree := ⟨[(["in.html"], [0xFF])], []⟩
    let ran := runOn t (Outside.ordinary []) ["in.html"]
    parseArguments ["in.html"] =
        .ok (.convert { Arguments.default with input := "in.html" }) ∧
      t.read "in.html" = .ok [0xFF] ∧
      Text.decodeUtf8 [0xFF] = .error ⟨.invalidStart, 0, [0xFF]⟩ ∧
      ran.1.code =
        .error (.undecodable (Text.Utf8Fault.mk .invalidStart 0 [0xFF]).message) := by
  decide +kernel

end CommandLine

end PageDistill
