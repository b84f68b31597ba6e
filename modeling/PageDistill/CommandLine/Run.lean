import PageDistill.CommandLine.Arguments
import PageDistill.CommandLine.Surroundings
import PageDistill.Json.Writer

/-!
# The Command

One run of the command: arguments in, Markdown and messages out.

The input is a file or, for a single hyphen, the standard input. The Markdown
goes to the output file or to the standard output, with a line end after it. The
table of references goes to a file of its own as JSON text, after the Markdown.
Asking for the table in either form asks for shortened URLs.

Files are read as UTF-8 and their line ends are unified; the standard input is
taken as it is. A run ends with 0 if all went well, with 1 if a text could not be
reached or put in its place or the reader of pages is not there, and with 2 if the
arguments do not fit. All other failures are faults of the run itself, which it
does not answer for: bytes that are no text and texts that cannot be written as
bytes, errors of the conversion, paths that no machine can have, and a table that
cannot be drawn.

An option may have been given without a value. Then the output, the table and the
metadata are not asked for, and the domain and the reader are options that do not
fit.

What is around a run is a parameter of it. So it is the same program on a directory
in memory and on the files of a machine, and whatever can fail there is told by what
is around it: access to files, the standard streams, the encoding of texts, the
reading of pages, and the drawing of the table. A text that cannot be written to a
file leaves the file empty, since it is opened first.

## Main definitions

* `optionsOf`: The options that the arguments ask for.
* `urlMapText`: The table of references as JSON text.
* `optionFaults`: The options that do not fit.
* `RunFault`, `Ending`: How a run may end.
* `run`: A run.
-/

namespace PageDistill

namespace CommandLine

/-- The way to call the command. -/
def usage : List String :=
  ["usage: semantic-markdown [-h] [-o FILE] [--extract-main-content]",
    "                         [--include-metadata \x7bbasic,extended\x7d]",
    "                         [--refify-urls] [--url-map FILE] [--show-url-map]",
    "                         [--website-domain URL] [--track-table-columns]",
    "                         [--parser NAME] [--debug]",
    "                         [--log-level \x7bDEBUG,INFO,WARNING,ERROR\x7d]",
    "                         [INPUT]"]

/-- A text that counts as given: one that is not empty. -/
def given (s : Option String) : Option String :=
  s.bind fun text => if text = "" then none else some text

/-- The wish for metadata of the arguments: the word that was given, if there is one. -/
def metadataWish (choice : Option String) : MetadataChoice :=
  match given choice with
  | some word => .value (.string word)
  | none => .off

/-- The options that the arguments ask for. -/
def optionsOf (a : Arguments) : Options :=
  { Options.default with
    websiteDomain := (a.websiteDomain.bind OptionValue.text?).map Domain.text
    extractMainContent := a.extractMainContent
    shortenUrls := a.refifyUrls || (given a.urlMap).isSome || a.showUrlMap
    debug := a.debug
    reader :=
      match a.parser with
      | .text name => .named name
      | .nothing => Options.default.reader
    trackTableColumns := a.trackTableColumns
    metadata := metadataWish a.includeMetadata }

/-- The number of things that are wrong with the options that the arguments ask
    for: a domain without a value is one, and a reader without a value is two, as
    it is neither a name nor a program. -/
def optionFaults (a : Arguments) : Nat :=
  (if a.websiteDomain = some .nothing then 1 else 0) + if a.parser = .nothing then 2 else 0

/-- What is said about options that do not fit, by their number. -/
def optionFaultsText (count : Nat) : String :=
  "ERROR: invalid options: " ++ String.ofList (Number.naturalText count) ++
    (if count = 1 then " validation error" else " validation errors") ++ " for ConversionOptions"

/-- The table of references as JSON text, with a line for each reference. -/
def urlMapText (refs : ReferenceMap) : List Char :=
  if refs.isEmpty then ['\x7b', '\x7d']
  else
    let lines := refs.map fun (key, token) =>
      ' ' :: ' ' :: (Json.quoteString key ++ ':' :: ' ' :: Json.quoteString token)
    '\x7b' :: '\n' :: (Text.joinWith [',', '\n'] lines ++ ['\n', '\x7d'])

/-- The faults that a run does not answer for with a message of its own. -/
inductive RunFault where
  /-- What was read is no text. -/
  | undecodable (reason : String)
  /-- A text cannot be written as bytes. -/
  | unencodable (reason : String)
  | conversion (e : ConversionError)
  /-- A path holds the character that ends paths. -/
  | nullInPath
  /-- The level of the log was given without a value. -/
  | logLevelMissing
  /-- The table of references cannot be drawn. -/
  | undrawable (reason : String)
  deriving DecidableEq, Repr

/-- What went wrong, in words. -/
def RunFault.message : RunFault → String
  | .undecodable reason => reason
  | .unencodable reason => reason
  | .conversion e => e.message
  | .nullInPath => "embedded null byte"
  | .logLevelMissing => "attribute name must be string, not 'list'"
  | .undrawable reason => reason

/-- How a run ended: its notes, what it wrote to the two standard outputs, and its code
    or the fault that ended it. -/
structure Ending where
  log : List Note
  stdout : String
  stderr : String
  code : Except RunFault Nat

/-- A run that failed with messages and wrote nothing to the standard output. -/
def failed (code : Nat) (lines : List String) (log : List Note) : Ending :=
  ⟨log, "", linesText lines, .ok code⟩

/-- A run that was ended by a fault and wrote nothing. -/
def stopped (fault : RunFault) (log : List Note) : Ending := ⟨log, "", "", .error fault⟩

/-- Does something to the file of a path, if a machine can have the path. -/
def accessFile {m : Type → Type} {α : Type} [Monad m] (path : String)
    (access : String → m (Except FileFault α)) : m (Except AccessFault α) := do
  if hasNull path then return .error .null
  return (← access path).mapError .file

/-- The text of bytes, with unified line ends. -/
def textOf (bytes : List UInt8) : Except AccessFault (List Char) :=
  match Text.decodeUtf8 bytes with
  | .error fault => .error (.coding fault.message)
  | .ok s => .ok (Text.unifyLineEnds s)

section

variable {m : Type → Type} [Monad m] (around : Surroundings m)

/-- The text of the input, or the reason why there is none. -/
def readInput (source : String) : m (Except AccessFault (List Char)) := do
  if source = "-" then around.stdin
  else
    match ← accessFile source around.files.read with
    | .error fault => return .error fault
    | .ok bytes => return textOf bytes

/-- Writes a text to a file. The file is opened before the text is encoded. -/
def writeText (path : String) (s : List Char) : m (Except AccessFault Unit) := do
  match around.unwritable? s with
  | none => accessFile path fun path => around.files.write path (Text.encodeUtf8 s)
  | some reason =>
    match ← accessFile path fun path => around.files.write path [] with
    | .error fault => return .error fault
    | .ok () => return .error (.coding reason)

/-- Writes the Markdown where the arguments want it: what of it was shown, what is noted,
    and the fault that ended the writing. -/
def writeMarkdown (a : Arguments) (markdown : String) :
    m (String × List Note × Option AccessFault) := do
  let text := markdown ++ "\n"
  match given a.output with
  | none =>
    match ← around.display text with
    | none => return (text, [], none)
    | some (shown, fault) => return (shown, [], some fault)
  | some path =>
    match ← writeText around path text.toList with
    | .error fault => return ("", [], some fault)
    | .ok () =>
      let length := String.ofList (Number.naturalText markdown.length)
      return ("", [⟨.info, "Wrote " ++ length ++ " characters to " ++ path⟩], none)

/-- Writes the table of references where the arguments want it. -/
def writeTable (a : Arguments) (refs : ReferenceMap) : m (Option AccessFault) := do
  match given a.urlMap with
  | none => return none
  | some path =>
    match ← writeText around path (urlMapText refs) with
    | .error fault => return some fault
    | .ok () => return none

/-- Writes the Markdown and then the table of references. -/
def writeOutputs (a : Arguments) (markdown : String) (refs : ReferenceMap) :
    m (String × List Note × Option AccessFault) := do
  match ← writeMarkdown around a markdown with
  | (shown, log, some fault) => return (shown, log, some fault)
  | (shown, log, none) => return (shown, log, ← writeTable around a refs)

/-- Converts the text of the input and writes what comes out. -/
def convertInput (a : Arguments) (html : List Char) : m Ending := do
  let outcome := convertPageOn around.machine (optionsOf a) (String.ofList html)
  let log := outcome.markdown.log
  match outcome.markdown.result with
  | .error (.reader (.unavailable shown names)) =>
    return failed 1
      ["ERROR: " ++ (ReaderFault.unavailable shown names).message,
        "Install lxml or pick another tree builder with --parser"] log
  | .error e => return stopped (.conversion e) log
  | .ok markdown =>
    let (stdout, notes, fault?) ← writeOutputs around a markdown outcome.urlMap
    let ended := Ending.mk (log ++ notes) stdout
    match fault? with
    | some (.file fault) =>
      return ended (linesText ["ERROR: Could not write output: " ++ fault.message]) (.ok 1)
    | some .null => return ended "" (.error .nullInPath)
    | some (.coding reason) => return ended "" (.error (.unencodable reason))
    | none =>
      if a.showUrlMap then
        match around.drawn outcome.urlMap with
        | .ok table => return ended table (.ok 0)
        | .error reason => return ended "" (.error (.undrawable reason))
      else return ended "" (.ok 0)

/-- A run of the command. -/
def run (words : List String) : m Ending := do
  match parseArguments words with
  | .error fault =>
    return failed 2 (usage ++ ["semantic-markdown: error: " ++ fault.message]) []
  | .ok .help =>
    match ← around.display (linesText usage) with
    | none => return ⟨[], linesText usage, "", .ok 0⟩
    | some (shown, _) => return ⟨[], shown, "", .ok 0⟩
  | .ok (.convert a) =>
    if !a.debug ∧ a.logLevel = .nothing then return stopped .logLevelMissing []
    else if optionFaults a ≠ 0 then return failed 1 [optionFaultsText (optionFaults a)] []
    else
      match ← readInput around a.input with
      | .error .null => return stopped .nullInPath []
      | .error (.coding reason) => return stopped (.undecodable reason) []
      | .error (.file fault) =>
        return failed 1 ["ERROR: Could not read " ++ a.input ++ ": " ++ fault.message] []
      | .ok html => convertInput around a html

end

end CommandLine

end PageDistill
