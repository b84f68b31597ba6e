import PageDistill.Entries
import PageDistill.Text.Blank
import PageDistill.Text.DecimalDigit
import PageDistill.Text.Quoted

/-!
# Arguments of the Command Line

What the words of a command line ask for.

A word that begins with a hyphen is an option, unless it is a hyphen alone, looks
like a negative number, or is no option and holds a space. An option with two
hyphens may be cut short as long as only one option begins that way, and may
bring its value after an equals sign; one with a single hyphen may bring it right
after its letter. The word `--` ends the options. All other words are values of
the options before them, or the input.

An option may bring `--` as its value. That is no text: the option has been given,
and it has no value.

Words are sorted before they are taken, so an option that is cut too short is
reported before anything else. The rest is taken from left to right and the first
fault ends it. Words that nothing takes are reported together at the end.

## Main definitions

* `Switch`, `switches`: The options.
* `ArgumentFault`: What can be wrong.
* `Word`, `sortWords`: The words by what they are.
* `OptionValue`: The value of an option.
* `Arguments`: What a command line asks for.
* `Request`: The same, or the wish for help.
* `parseArguments`: The words of a command line taken together.
-/

namespace PageDistill

namespace CommandLine

/-- What an option of the command line sets. -/
inductive Switch where
  | help
  | output
  | extractMainContent
  | includeMetadata
  | refifyUrls
  | urlMap
  | showUrlMap
  | websiteDomain
  | trackTableColumns
  | parser
  | debug
  | logLevel
  deriving DecidableEq, Repr

namespace Switch

/-- The words of an option. -/
def names : Switch → List String
  | .help => ["-h", "--help"]
  | .output => ["-o", "--output"]
  | .extractMainContent => ["--extract-main-content"]
  | .includeMetadata => ["--include-metadata"]
  | .refifyUrls => ["--refify-urls"]
  | .urlMap => ["--url-map"]
  | .showUrlMap => ["--show-url-map"]
  | .websiteDomain => ["--website-domain"]
  | .trackTableColumns => ["--track-table-columns"]
  | .parser => ["--parser"]
  | .debug => ["--debug"]
  | .logLevel => ["--log-level"]

/-- Whether an option has a value. -/
def hasValue : Switch → Bool
  | .output | .includeMetadata | .urlMap | .websiteDomain | .parser | .logLevel => true
  | _ => false

/-- The values that an option may have; an option without a list takes any. -/
def choices : Switch → List String
  | .includeMetadata => ["basic", "extended"]
  | .logLevel => ["DEBUG", "INFO", "WARNING", "ERROR"]
  | _ => []

/-- An option as messages name it. -/
def label (s : Switch) : String := String.intercalate "/" s.names

end Switch

/-- All options, in the order in which they are listed. -/
def switches : List Switch :=
  [.help, .output, .extractMainContent, .includeMetadata, .refifyUrls, .urlMap, .showUrlMap,
    .websiteDomain, .trackTableColumns, .parser, .debug, .logLevel]

/-- All words of options, with the options. -/
def switchNames : List (String × Switch) :=
  switches.flatMap fun s => s.names.map fun name => (name, s)

/-- What can be wrong with a command line. -/
inductive ArgumentFault where
  | ambiguous (word : String) (candidates : List String)
  | valueMissing (switch : Switch)
  | valueIgnored (switch : Switch) (value : String)
  | badChoice (switch : Switch) (value : String)
  | unrecognized (words : List String)
  deriving DecidableEq, Repr

/-- A text between quotation marks. -/
def quoted (s : String) : String := String.ofList (Text.quote s.toList)

/-- What is wrong, in words. -/
def ArgumentFault.message : ArgumentFault → String
  | .ambiguous word candidates =>
    "ambiguous option: " ++ word ++ " could match " ++ String.intercalate ", " candidates
  | .valueMissing switch => "argument " ++ switch.label ++ ": expected one argument"
  | .valueIgnored switch value =>
    "argument " ++ switch.label ++ ": ignored explicit argument " ++ quoted value
  | .badChoice switch value =>
    "argument " ++ switch.label ++ ": invalid choice: " ++ quoted value ++ " (choose from " ++
      String.intercalate ", " (switch.choices.map quoted) ++ ")"
  | .unrecognized words => "unrecognized arguments: " ++ String.intercalate " " words

/-- A word by what it is: an option, with the word that it was found under and
    the value that came with it; a word that looks like an option and is none; the
    end of the options; or a plain word. -/
inductive Word where
  | option (switch : Switch) (name : String) (value : Option String)
  | unknown (word : String)
  | endOfOptions
  | plain (word : String)
  deriving DecidableEq, Repr

/-- A word before and after its first equals sign, if it has one. -/
def splitEquals (word : List Char) : List Char × Option (List Char) :=
  match word.dropWhile fun c => c != '=' with
  | [] => (word, none)
  | _ :: value => (word.takeWhile fun c => c != '=', some value)

/-- Whether a character is a decimal digit of any script. -/
def isAnyDigit (c : Char) : Bool := (Text.digitValue? c).isSome

/-- Whether a text is nothing, or one line end. -/
def isLineEnd (s : List Char) : Bool := s.isEmpty || s == ['\n']

/-- Whether a word looks like a negative number: a hyphen, then digits, with at
    most one point among them and a digit after it. A line end may follow. -/
def isNegativeNumber (word : List Char) : Bool :=
  match word with
  | '-' :: rest =>
    match rest.dropWhile isAnyDigit with
    | '.' :: fraction =>
      fraction.head?.any isAnyDigit && isLineEnd (fraction.dropWhile isAnyDigit)
    | after => rest.head?.any isAnyDigit && isLineEnd after
  | _ => false

/-- The options that a word may stand for, with the value that it brings. -/
def candidates (word : List Char) : List (String × Switch × Option String) :=
  match word with
  | '-' :: '-' :: _ =>
    match splitEquals word with
    | (start, value) =>
      (switchNames.filter fun (name, _) => start.isPrefixOf name.toList).map fun (name, switch) =>
        (name, switch, value.map String.ofList)
  | '-' :: letter :: rest =>
    switchNames.filterMap fun (name, switch) =>
      if name.toList = ['-', letter] then some (name, switch, some (String.ofList rest))
      else if word.isPrefixOf name.toList then some (name, switch, none)
      else none
  | _ => []

/-- What a word is that stands before the end of the options. -/
def sortWord (word : String) : Except ArgumentFault Word :=
  let s := word.toList
  if s.head? ≠ some '-' ∨ s = ['-'] then .ok (.plain word)
  else
    match Entries.lookup? switchNames word with
    | some switch => .ok (.option switch word none)
    | none =>
      let (start, value) := splitEquals s
      let exact :=
        value.bind fun value =>
          (Entries.lookup? switchNames (String.ofList start)).map fun switch =>
            Word.option switch (String.ofList start) (some (String.ofList value))
      match exact with
      | some found => .ok found
      | none =>
        match candidates s with
        | [(name, switch, value)] => .ok (.option switch name value)
        | [] =>
          if isNegativeNumber s ∨ s.contains ' ' then .ok (.plain word) else .ok (.unknown word)
        | several => .error (.ambiguous word (several.map Prod.fst))

/-- The words of a command line by what they are. -/
def sortWords : List String → Except ArgumentFault (List Word)
  | [] => .ok []
  | word :: rest =>
    if word = "--" then .ok (.endOfOptions :: rest.map Word.plain)
    else do
      let first ← sortWord word
      let others ← sortWords rest
      return first :: others

/-- The value of an option: a text, or none because the word that ends the options
    stands in its place. -/
inductive OptionValue where
  | text (s : String)
  | nothing
  deriving DecidableEq, Repr

namespace OptionValue

/-- The value that an option brings along. -/
def brought (word : String) : OptionValue := if word = "--" then .nothing else .text word

/-- The text of a value. -/
def text? : OptionValue → Option String
  | .text s => some s
  | .nothing => none

end OptionValue

/-- What a command line asks for. -/
structure Arguments where
  input : String
  output : Option String
  extractMainContent : Bool
  includeMetadata : Option String
  refifyUrls : Bool
  urlMap : Option String
  showUrlMap : Bool
  websiteDomain : Option OptionValue
  trackTableColumns : Bool
  parser : OptionValue
  debug : Bool
  logLevel : OptionValue
  deriving DecidableEq, Repr

/-- What an empty command line asks for. -/
def Arguments.default : Arguments :=
  { input := "-"
    output := none
    extractMainContent := false
    includeMetadata := none
    refifyUrls := false
    urlMap := none
    showUrlMap := false
    websiteDomain := none
    trackTableColumns := false
    parser := .text "lxml"
    debug := false
    logLevel := .text "WARNING" }

/-- A request: to explain the command line, or to do what it asks for. -/
inductive Request where
  | help
  | convert (arguments : Arguments)
  deriving DecidableEq, Repr

/-- The end of taking words before the last one: a fault, or the wish for
    help. -/
inductive Stop where
  | fault (f : ArgumentFault)
  | help
  deriving DecidableEq, Repr

/-- What is wrong with the value of an option, if anything is: a text that is not
    among its choices. -/
def choiceFault? (switch : Switch) (value : OptionValue) : Option ArgumentFault :=
  match value with
  | .text s =>
    if !switch.choices.isEmpty && !switch.choices.contains s then some (.badChoice switch s)
    else none
  | .nothing => none

/-- The arguments after an option with its value, which is nothing for an option
    without one. -/
def Arguments.apply (a : Arguments) (switch : Switch) (value : OptionValue) :
    Except Stop Arguments :=
  match choiceFault? switch value with
  | some fault => .error (.fault fault)
  | none =>
    match switch with
    | .help => .error .help
    | .output => .ok { a with output := value.text? }
    | .extractMainContent => .ok { a with extractMainContent := true }
    | .includeMetadata => .ok { a with includeMetadata := value.text? }
    | .refifyUrls => .ok { a with refifyUrls := true }
    | .urlMap => .ok { a with urlMap := value.text? }
    | .showUrlMap => .ok { a with showUrlMap := true }
    | .websiteDomain => .ok { a with websiteDomain := some value }
    | .trackTableColumns => .ok { a with trackTableColumns := true }
    | .parser => .ok { a with parser := value }
    | .debug => .ok { a with debug := true }
    | .logLevel => .ok { a with logLevel := value }

/-- The options that one word asks for: those without a value, and the last one,
    with the value that the word brings for it. -/
structure Asked where
  before : List Switch
  last : Switch
  value : Option String

/-- The options that a word asks for by an option and what follows its letter. As
    long as the letters are those of options without a value, each stands for its
    option. -/
def expandLetters (switch : Switch) : List Char → Except Stop Asked
  | [] => .ok ⟨[], switch, none⟩
  | letter :: rest =>
    if switch.hasValue then .ok ⟨[], switch, some (String.ofList (letter :: rest))⟩
    else
      match Entries.lookup? switchNames (String.ofList ['-', letter]) with
      | some next => do
        let asked ← expandLetters next rest
        return { asked with before := switch :: asked.before }
      | none => .error (.fault (.valueIgnored switch (String.ofList (letter :: rest))))

/-- The options that a word asks for, which was found under a name and brings a
    value along. -/
def expand (switch : Switch) (name : String) (value : Option String) : Except Stop Asked :=
  match value with
  | none => .ok ⟨[], switch, none⟩
  | some value =>
    if switch.hasValue then .ok ⟨[], switch, some value⟩
    else if value = "" ∨ name.length ≠ 2 then
      .error (.fault (.valueIgnored switch value))
    else expandLetters switch value.toList

/-- The value of the last of the options that a word asks for, and the words that
    are left when it was taken. -/
def valueOf (asked : Asked) (rest : List Word) : Except Stop (OptionValue × List Word) :=
  match asked.value with
  | some value => .ok (.brought value, rest)
  | none =>
    if asked.last.hasValue then
      match rest with
      | .plain value :: rest => .ok (.text value, rest)
      | _ => .error (.fault (.valueMissing asked.last))
    else .ok (.nothing, rest)

/-- The arguments after the options that one word asks for, and the words that are
    left. The value of the last one is found before any of them counts. -/
def applyAsked (a : Arguments) (asked : Asked) (rest : List Word) :
    Except Stop (Arguments × List Word) := do
  let (value, rest) ← valueOf asked rest
  let a ← asked.before.foldlM (fun a switch => a.apply switch .nothing) a
  return (← a.apply asked.last value, rest)

/-- A word as it was written. -/
def Word.text : Word → String
  | .option _ name _ => name
  | .unknown word => word
  | .endOfOptions => "--"
  | .plain word => word

/-- The state of taking words: the arguments so far, whether the input has been
    taken, and the words that nothing has taken. -/
structure Taking where
  arguments : Arguments
  inputTaken : Bool
  extras : List String

/-- Takes the input from the front of the words, with the end of options around
    it, and leaves the rest. -/
def takeInput (t : Taking) (words : List Word) : Taking × List Word :=
  let dropEnd : List Word → List Word
    | .endOfOptions :: rest => rest
    | rest => rest
  match dropEnd words with
  | .plain word :: rest =>
    ({ t with arguments := { t.arguments with input := word }, inputTaken := true }, dropEnd rest)
  | rest => ({ t with inputTaken := true }, rest)

/-- Takes the words from left to right. The measure bounds their number. -/
def takeWords : Nat → Taking → List Word → Except Stop Taking
  | 0, t, _ => .ok t
  | fuel + 1, t, words =>
    match words with
    | [] => .ok t
    | .option switch name value :: rest => do
      let (a, rest) ← applyAsked t.arguments (← expand switch name value) rest
      takeWords fuel { t with arguments := a } rest
    | .unknown word :: rest => takeWords fuel { t with extras := t.extras ++ [word] } rest
    | word :: rest =>
      if t.inputTaken then
        takeWords fuel { t with extras := t.extras ++ [word.text] } rest
      else
        match takeInput t (word :: rest) with
        | (t, rest) => takeWords fuel t rest

/-- The request of a command line. -/
def parseArguments (words : List String) : Except ArgumentFault Request :=
  match sortWords words with
  | .error fault => .error fault
  | .ok sorted =>
    match takeWords (2 * sorted.length + 1) ⟨Arguments.default, false, []⟩ sorted with
    | .error (.fault fault) => .error fault
    | .error .help => .ok .help
    | .ok t =>
      if t.extras.isEmpty then .ok (.convert t.arguments) else .error (.unrecognized t.extras)

end CommandLine

end PageDistill
