import PageDistill.Proofs.CommandLine.FilesKept
import PageDistill.Proofs.CommandLine.TableText
import PageDistill.Proofs.Convert.Session
import PageDistill.Proofs.Options.Validated

/-!
# The Stages of a Run

What the stages of a run on a tree of files do, each as a function of the tree.

The command is written over whatever is around it, and here the files are a tree in memory. All else
may still be anything: the readers of pages, the room for them, the standard streams, the encoding
of texts and the drawing of the table. A stage that reads leaves the tree as it is, and a stage that
writes goes as far as it can. The first stage that does not come to its end is the problem of the
run. The command answers for some problems and lets others out, which is a matter of the problem
alone (`Problem.fault?`).

## Main definitions

* `runOn`: A run on a tree of files.
* `Problem`: What can be the matter with a run.
* `Problem.fault?`, `Problem.lines`: What a run lets out, and what it says.
* `inputOf`, `pageOf`: The text of the input, and what its conversion leaves.
* `filesOf`: What is written to files.
* `save`, `saveAll`: A file that is written, and files one after another.
* `Left`, `written`: What a run leaves, and what it has written.
* `Outside.farewell`: What a run says that has written everything.
* `Starts`: Arguments that fit.

## Theorems

* `readInput_run`, `writeOutputs_run`: The stages that read and write.
* `convertInput_error`, `convertInput_ok`: What becomes of a page.
* `runOn_starts`: A run with arguments that fit.
* `saveAll_cons`: Files are written one after another.
* `read_table`: The table of a page is read back from its text.
-/

namespace PageDistill

namespace CommandLine

/-- A run on a tree of files: how it ended, and the tree that it leaves. -/
def runOn (t : FileTree) (outside : Outside) (words : List String) : Ending × FileTree :=
  (run outside.around words).run t

/-- What can be the matter with a run. -/
inductive Problem where
  | logLevel
  | options
  | input (fault : AccessFault)
  | page (e : ConversionError)
  | output (fault : AccessFault)
  | table (reason : String)

namespace Problem

/-- The fault that a problem lets out of a run, if the run does not answer for it. -/
def fault? : Problem → Option RunFault
  | .logLevel => some .logLevelMissing
  | .options => none
  | .input (.file _) => none
  | .input .null => some .nullInPath
  | .input (.coding reason) => some (.undecodable reason)
  | .page (.reader (.unavailable ..)) => none
  | .page e => some (.conversion e)
  | .output (.file _) => none
  | .output .null => some .nullInPath
  | .output (.coding reason) => some (.unencodable reason)
  | .table reason => some (.undrawable reason)

/-- What a run says about a problem that it answers for. -/
def lines (a : Arguments) : Problem → List String
  | .options => [optionFaultsText (optionFaults a)]
  | .input (.file fault) => ["ERROR: Could not read " ++ a.input ++ ": " ++ fault.message]
  | .page (.reader (.unavailable shown names)) =>
    ["ERROR: " ++ (ReaderFault.unavailable shown names).message,
      "Install lxml or pick another tree builder with --parser"]
  | .output (.file fault) => ["ERROR: Could not write output: " ++ fault.message]
  | _ => []

/-- The code of a run with a problem, or the fault that ends it. -/
def code (problem : Problem) : Except RunFault Nat :=
  match problem.fault? with
  | some fault => .error fault
  | none => .ok 1

/-- Whether a problem comes up before anything is written. -/
def beforeWriting : Problem → Bool
  | .output _ => false
  | .table _ => false
  | _ => true

end Problem

/-- What a run leaves: what it has shown, and the tree of files. -/
structure Left where
  stdout : String
  tree : FileTree

/-- The text of the input of a run: that of the standard input as it is, or that of a file with
    unified line ends. -/
def inputOf (t : FileTree) (outside : Outside) (source : String) :
    Except AccessFault (List Char) :=
  if source = "-" then outside.stdin
  else if hasNull source then .error .null
  else
    match t.read source with
    | .error fault => .error (.file fault)
    | .ok bytes => textOf bytes

/-- What the conversion of a text leaves under the options of the arguments. -/
def pageOf (outside : Outside) (a : Arguments) (html : List Char) : Outcome :=
  convertPageOn outside.machine (optionsOf a) (String.ofList html)

/-- The files that the arguments ask for, in the order in which they are written: the Markdown with
    a line end after it, and the table of references. -/
def filesOf (a : Arguments) (markdown : String) (refs : ReferenceMap) :
    List (String × List Char) :=
  (given a.output).toList.map (fun path => (path, (markdown ++ "\n").toList)) ++
    (given a.urlMap).toList.map fun path => (path, urlMapText refs)

/-- The tree after some bytes were written to a file, if a machine can have its path. -/
def put (t : FileTree) (path : String) (bytes : List UInt8) : Except AccessFault FileTree :=
  if hasNull path then .error .null else (t.write path bytes).mapError .file

/-- A text that is written to a file: the fault, if there is one, and the tree that is left. -/
def save (outside : Outside) (t : FileTree) (path : String) (s : List Char) :
    Option AccessFault × FileTree :=
  match outside.unwritable? s with
  | none =>
    match put t path (Text.encodeUtf8 s) with
    | .error fault => (some fault, t)
    | .ok t => (none, t)
  | some reason =>
    match put t path [] with
    | .error fault => (some fault, t)
    | .ok t => (some (.coding reason), t)

/-- Texts that are written to files one after another: the first fault, and the tree that is
    left. -/
def saveAll (outside : Outside) (t : FileTree) :
    List (String × List Char) → Option AccessFault × FileTree
  | [] => (none, t)
  | (path, s) :: rest =>
    match save outside t path s with
    | (some fault, t) => (some fault, t)
    | (none, t) => saveAll outside t rest

/-- What a run has written: first it shows the Markdown, unless it goes to a file, and then it
    writes the files. -/
def written (outside : Outside) (t : FileTree) (a : Arguments) (markdown : String)
    (refs : ReferenceMap) : Option AccessFault × Left :=
  let files := saveAll outside t (filesOf a markdown refs)
  match given a.output with
  | some _ => (files.1, ⟨"", files.2⟩)
  | none =>
    match outside.display (markdown ++ "\n") with
    | some (shown, fault) => (some fault, ⟨shown, t⟩)
    | none => (files.1, ⟨markdown ++ "\n", files.2⟩)

/-- The arguments give a level for the log and options that fit. -/
structure Starts (a : Arguments) : Prop where
  level : ¬(a.debug = false ∧ a.logLevel = .nothing)
  options : optionFaults a = 0

/-- Arguments that fit ask for options that are checked. -/
theorem Starts.validated {a : Arguments} (h : Starts a) : (optionsOf a).Validated := by
  have hreader : a.parser ≠ .nothing := by
    intro hnothing
    have hfaults := h.options
    unfold optionFaults at hfaults
    rw [if_pos hnothing] at hfaults
    omega
  refine ⟨fun kind hkind => ?_, ⟨256, by decide, rfl⟩, ?_⟩
  · rcases Option.map_eq_some_iff.mp hkind with ⟨_, _, htext⟩
    exact nomatch htext
  · cases hparser : a.parser with
    | nothing => exact absurd hparser hreader
    | text name =>
        refine Or.inl ⟨name, ?_⟩
        unfold optionsOf
        simp only [hparser]

/-- What is said at the end of a run that has written all that it was asked for. -/
def Outside.farewell (outside : Outside) (a : Arguments) (refs : ReferenceMap) :
    String × Except RunFault Nat :=
  if a.showUrlMap then
    match outside.drawn refs with
    | .ok table => (table, .ok 0)
    | .error reason => ("", .error (.undrawable reason))
  else ("", .ok 0)

section

variable {t : FileTree} {outside : Outside}

theorem access_read (path : String) :
    (FileTree.access.read path).run t = (t.read path, t) := rfl

theorem access_write (path : String) (bytes : List UInt8) :
    (FileTree.access.write path bytes).run t =
      match t.write path bytes with
      | .error fault => (.error fault, t)
      | .ok t => (.ok (), t) := by
  unfold FileTree.access
  simp only [StateT.run_bind, StateT.run_get, pure_bind]
  cases t.write path bytes <;> rfl

/-- A file is read if a machine can have its path. -/
theorem accessFile_read (path : String) :
    (accessFile path FileTree.access.read).run t =
      (if hasNull path then .error .null else (t.read path).mapError .file, t) := by
  unfold accessFile
  by_cases hnull : hasNull path = true
  · rw [if_pos hnull, if_pos hnull]
    rfl
  · rw [if_neg hnull, if_neg hnull, StateT.run_bind, access_read]
    rfl

/-- A file is written if a machine can have its path and the tree has room for it. -/
theorem accessFile_write (path : String) (bytes : List UInt8) :
    (accessFile path fun path => FileTree.access.write path bytes).run t =
      match put t path bytes with
      | .error fault => (.error fault, t)
      | .ok t => (.ok (), t) := by
  unfold accessFile put
  by_cases hnull : hasNull path = true
  · rw [if_pos hnull, if_pos hnull]
    rfl
  · rw [if_neg hnull, if_neg hnull, StateT.run_bind, access_write]
    cases t.write path bytes <;> rfl

/-- The input is read without a change to the files. -/
theorem readInput_run (source : String) :
    (readInput outside.around source).run t = (inputOf t outside source, t) := by
  unfold readInput inputOf Outside.around
  by_cases hstdin : source = "-"
  · rw [if_pos hstdin, if_pos hstdin]
    rfl
  · rw [if_neg hstdin, if_neg hstdin, StateT.run_bind, accessFile_read]
    by_cases hnull : hasNull source = true
    · rw [if_pos hnull, if_pos hnull]
      rfl
    · rw [if_neg hnull, if_neg hnull]
      cases t.read source <;> rfl

/-- A text is written to a file as far as that goes. -/
theorem writeText_run (path : String) (s : List Char) :
    (writeText outside.around path s).run t =
      (match (save outside t path s).1 with
        | some fault => .error fault
        | none => .ok (), (save outside t path s).2) := by
  unfold writeText save
  cases hwritable : outside.unwritable? s with
  | none =>
      simp only [Outside.around, hwritable, accessFile_write]
      cases put t path (Text.encodeUtf8 s) <;> rfl
  | some reason =>
      simp only [Outside.around, hwritable, StateT.run_bind, accessFile_write]
      cases put t path [] <;> rfl

/-- The table is written to its file, if there is one. -/
theorem writeTable_run (a : Arguments) (refs : ReferenceMap) :
    (writeTable outside.around a refs).run t =
      saveAll outside t ((given a.urlMap).toList.map fun path => (path, urlMapText refs)) := by
  unfold writeTable
  cases given a.urlMap with
  | none => rfl
  | some path =>
      simp only [StateT.run_bind, writeText_run, Option.toList_some, List.map_cons, List.map_nil,
        saveAll]
      rcases save outside t path (urlMapText refs) with ⟨_ | fault, after⟩ <;> rfl

/-- The files are written in their order, up to the first fault. -/
theorem writeOutputs_run (a : Arguments) (markdown : String) (refs : ReferenceMap) :
    ∃ notes, (writeOutputs outside.around a markdown refs).run t =
      (((written outside t a markdown refs).2.stdout, notes,
        (written outside t a markdown refs).1), (written outside t a markdown refs).2.tree) := by
  unfold writeOutputs writeMarkdown written filesOf
  cases given a.output with
  | none =>
      have hdisplay : outside.around.display (markdown ++ "\n") =
        pure (outside.display (markdown ++ "\n")) := rfl
      simp only [StateT.run_bind, hdisplay, pure_bind]
      cases outside.display (markdown ++ "\n") with
      | some shown => exact ⟨_, rfl⟩
      | none =>
          simp only [StateT.run_pure, pure_bind, StateT.run_bind, writeTable_run]
          exact ⟨_, rfl⟩
  | some output =>
      simp only [StateT.run_bind, writeText_run, Option.toList_some, List.map_cons,
        List.map_nil, List.singleton_append, saveAll]
      -- The table is written only after the Markdown.
      rcases save outside t output (markdown ++ "\n").toList with ⟨_ | fault, after⟩
      · change ∃ notes, (writeTable outside.around a refs >>= _).run after = _
        simp only [StateT.run_bind, writeTable_run]
        exact ⟨_, rfl⟩
      · exact ⟨_, rfl⟩

/-- A page that cannot be converted ends the run before anything is written. -/
theorem convertInput_error {a : Arguments} {html : List Char} {e : ConversionError}
    (h : (pageOf outside a html).markdown.result = .error e) :
    ∃ notes, (convertInput outside.around a html).run t =
      (⟨notes, "", linesText ((Problem.page e).lines a), (Problem.page e).code⟩, t) := by
  unfold pageOf at h
  unfold convertInput Outside.around
  simp only [h]
  cases e with
  | reader fault => cases fault <;> exact ⟨_, rfl⟩
  | _ => exact ⟨_, rfl⟩

/-- A page that can be converted is written as far as that goes, and then the table is drawn. -/
theorem convertInput_ok {a : Arguments} {html : List Char} {markdown : String}
    (h : (pageOf outside a html).markdown.result = .ok markdown)
    {fault? : Option AccessFault} {left : Left}
    (hwritten : written outside t a markdown (pageOf outside a html).urlMap = (fault?, left)) :
    ∃ notes, (convertInput outside.around a html).run t =
      (match fault? with
        | some fault =>
          let problem := Problem.output fault
          ⟨notes, left.stdout, linesText (problem.lines a), problem.code⟩
        | none =>
          let (stderr, code) := outside.farewell a (pageOf outside a html).urlMap
          ⟨notes, left.stdout, stderr, code⟩, left.tree) := by
  have hrun : ∃ notes, (writeOutputs outside.around a markdown _).run t = _ :=
    writeOutputs_run a markdown (pageOf outside a html).urlMap
  rcases hrun with ⟨notes, hrun⟩
  rw [hwritten] at hrun
  unfold convertInput
  have hpage : convertPageOn outside.around.machine (optionsOf a) (String.ofList html) =
      pageOf outside a html := rfl
  simp only [hpage, h, StateT.run_bind, hrun]
  cases fault? with
  | some fault => cases fault <;> exact ⟨_, rfl⟩
  | none =>
      -- Everything is written, but drawing the table may still fail.
      unfold Outside.farewell
      have hdrawn : outside.around.drawn = outside.drawn := rfl
      by_cases hshow : a.showUrlMap = true
      · simp only [if_pos hshow, hdrawn]
        cases outside.drawn (pageOf outside a html).urlMap <;> exact ⟨_, rfl⟩
      · simp only [if_neg hshow]
        exact ⟨_, rfl⟩

/-- A run with arguments that fit reads its input and goes on with what it has read. -/
theorem runOn_starts {words : List String} {a : Arguments}
    (hwords : parseArguments words = .ok (.convert a)) (hstart : Starts a) :
    ∃ notes, runOn t outside words =
      match inputOf t outside a.input with
      | .error fault =>
        let problem := Problem.input fault
        (⟨notes, "", linesText (problem.lines a), problem.code⟩, t)
      | .ok html => (convertInput outside.around a html).run t := by
  have hlevel : ¬((!a.debug) = true ∧ a.logLevel = .nothing) := by
    simpa using hstart.level
  unfold runOn run
  simp only [hwords, if_neg hlevel, hstart.options, ne_eq, not_true_eq_false, if_false,
    StateT.run_bind, readInput_run]
  cases inputOf t outside a.input with
  | ok html => exact ⟨[], rfl⟩
  | error fault => cases fault <;> exact ⟨[], rfl⟩

/-- Files are written one after another if the first one is written, and then the others. -/
theorem saveAll_cons {path : String} {s : List Char} {rest : List (String × List Char)}
    {after : FileTree} (h : saveAll outside t ((path, s) :: rest) = (none, after)) :
    ∃ next, t.write path (Text.encodeUtf8 s) = .ok next ∧
      saveAll outside next rest = (none, after) := by
  unfold saveAll save at h
  cases hwritable : outside.unwritable? s with
  | some reason =>
      -- An empty file is left then, and the text is not written.
      simp only [hwritable] at h
      cases hput : put t path [] <;> simp only [hput] at h <;> exact nomatch h
  | none =>
      simp only [hwritable] at h
      cases hput : put t path (Text.encodeUtf8 s) with
      | error fault =>
          simp only [hput] at h
          exact nomatch h
      | ok next =>
          simp only [hput] at h
          refine ⟨next, ?_, h⟩
          -- A write that succeeds is one of the tree.
          unfold put at hput
          by_cases hnull : hasNull path = true
          · rw [if_pos hnull] at hput
            exact nomatch hput
          · rw [if_neg hnull] at hput
            cases hwrite : t.write path (Text.encodeUtf8 s) with
            | error fault =>
                rw [hwrite] at hput
                exact nomatch hput
            | ok written =>
                rw [hwrite] at hput
                rw [Except.ok.inj hput]

theorem saveAll_single {path : String} {s : List Char} {after : FileTree}
    (h : saveAll outside t [(path, s)] = (none, after)) :
    t.write path (Text.encodeUtf8 s) = .ok after := by
  rcases saveAll_cons h with ⟨next, hwrite, hrest⟩
  rw [hwrite, (Prod.mk.inj hrest).2]

/-- The table that a page leaves has no doubled keys, however far the machine came. -/
theorem pageOf_urlMap_canonical (outside : Outside) (a : Arguments) (html : List Char) :
    (pageOf outside a html).urlMap.Canonical := by
  have hpage := Call.urlMap_canonical (optionsOf a) outside.machine.readers
    ⟨[], .page (String.ofList html)⟩ ReferenceMap.canonical_nil
  unfold pageOf convertPageOn
  simp only
  split
  · exact ReferenceMap.canonical_nil
  · exact hpage
  · exact hpage

/-- So it can be written and read back. -/
theorem read_table (outside : Outside) (a : Arguments) (html : List Char) :
    Json.read (urlMapText (pageOf outside a html).urlMap) =
      .ok (tableValue (pageOf outside a html).urlMap) :=
  read_urlMapText _ (pageOf_urlMap_canonical outside a html).distinct

end

end CommandLine

end PageDistill
