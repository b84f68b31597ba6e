import PageDistill.Convert
import PageDistill.Entries
import PageDistill.Options

/-!
# Options From Settings

Options given by name, with values that may not fit.

Settings are taken in two ways. `Options.ofSettings` makes options out of them:
every value is checked and brought into its type, and everything that is wrong
is reported, option by option in a fixed order and then the names that are no
options. `Options.override` changes options that are there: values are taken as
they are, a flag is on for every value that is not empty, the wish for metadata is kept as
it was given, and names that are no options do nothing. A value that its option cannot
work with fails when the option is used.

A flag may be given as a truth value, as one or zero, or as one of a few words. A
limit may be given as a whole number or as its decimal text, which may have blank
space around it, a sign, leading zeros, single underscores between digits, and a
fraction of zeros.

## Main definitions

* `Setting`: The value of a setting.
* `SettingFault`: What is wrong with a setting.
* `flagOf`, `choiceOf`, `limitOf`: The checks of the kinds of options.
* `Options.ofSettings`: Options from settings.
* `Options.override`: Options changed by settings.
* `convertPageWith`, `convertElementWith`: Conversions with changed options.
-/

namespace PageDistill

/-- The value of a setting: data, or something that only a program can give. -/
inductive Setting where
  | value (v : Json.Value)
  | elementHook (hook : ElementHook)
  | nodeHook (hook : NodeHook)
  | reader (read : Reader)

/-- The ways in which a value does not fit an option. -/
inductive FaultKind where
  | stringType
  | boolType
  | boolParsing
  | dictType
  | callableType
  | literalError
  | intType
  | intParsing
  | intParsingSize
  | intFromFloat
  | finiteNumber
  | greaterThanEqual
  | extraForbidden
  deriving DecidableEq, Repr

/-- The word for a kind of fault. -/
def FaultKind.code : FaultKind → String
  | .stringType => "string_type"
  | .boolType => "bool_type"
  | .boolParsing => "bool_parsing"
  | .dictType => "dict_type"
  | .callableType => "callable_type"
  | .literalError => "literal_error"
  | .intType => "int_type"
  | .intParsing => "int_parsing"
  | .intParsingSize => "int_parsing_size"
  | .intFromFloat => "int_from_float"
  | .finiteNumber => "finite_number"
  | .greaterThanEqual => "greater_than_equal"
  | .extraForbidden => "extra_forbidden"

/-- What is wrong with a setting: where, and in which way. -/
structure SettingFault where
  location : List String
  kind : FaultKind
  deriving DecidableEq, Repr

/-- A value that was brought into its type, or the ways in which it does not
    fit. The location of a fault is that below the option's name. -/
abbrev Checked (α : Type) := Except (List SettingFault) α

/-- One fault of a value as a whole. -/
def misfit {α : Type} (kind : FaultKind) : Checked α := .error [⟨[], kind⟩]

/-- The words for off and on, in lower case. -/
def flagWords : List (String × Bool) :=
  [("0", false), ("off", false), ("f", false), ("false", false), ("n", false), ("no", false),
    ("1", true), ("on", true), ("t", true), ("true", true), ("y", true), ("yes", true)]

/-- Whether an integer fits into a word of 64 bits. An integer that fits and is no
    flag counts as a wrong spelling of one, and others have the wrong type. -/
def fitsWord (n : Int) : Bool := -(Nat.pow 2 63 : Nat) ≤ n && n < (Nat.pow 2 63 : Nat)

/-- A flag from an integer. -/
def flagOfInteger (n : Int) : Checked Bool :=
  if n = 0 then .ok false
  else if n = 1 then .ok true
  else if fitsWord n then misfit .boolParsing
  else misfit .boolType

/-- A flag from a setting. -/
def flagOf : Setting → Checked Bool
  | .value (.bool b) => .ok b
  | .value (.integer n) => flagOfInteger n
  | .value (.float x) =>
    match x.toInt? with
    | some n => if n.natAbs < Nat.pow 2 63 then flagOfInteger n else misfit .boolType
    | none => misfit .boolType
  | .value (.string s) =>
    match Entries.lookup? flagWords (Text.foldName s) with
    | some b => .ok b
    | none => misfit .boolParsing
  | _ => misfit .boolType

/-- The text to cut from URLs, or nothing, from a setting. -/
def domainOf : Setting → Checked (Option Domain)
  | .value .null => .ok none
  | .value (.string s) => .ok (some (.text s))
  | _ => misfit .stringType

/-- The references among the members of an object, and the members that are
    none. -/
def referencesOf : List (String × Json.Value) → Checked ReferenceMap
  | [] => .ok []
  | (key, value) :: rest =>
    match value, referencesOf rest with
    | .string token, .ok refs => .ok ((key, token) :: refs)
    | .string _, .error faults => .error faults
    | _, .ok _ => .error [⟨[key], .stringType⟩]
    | _, .error faults => .error (⟨[key], .stringType⟩ :: faults)

/-- A table of references from a setting. -/
def mapOf : Setting → Checked ReferenceMap
  | .value (.object members) => referencesOf members
  | _ => misfit .dictType

/-- A reader from a setting. A value that is neither a name nor a program is
    wrong in both ways. -/
def readerOf : Setting → Checked PageReader
  | .value (.string name) => .ok (.named name)
  | .reader read => .ok (.custom read)
  | _ => .error [⟨["str"], .stringType⟩, ⟨["callable"], .callableType⟩]

/-- The wish for metadata, from a setting. What counts as nothing becomes falsehood, and
    truth the word for the usual amount. -/
def choiceOf : Setting → Checked MetadataChoice
  | .value .null => .ok .off
  | .value (.bool false) => .ok .off
  | .value (.integer 0) => .ok .off
  | .value (.float x) => if x.isZero then .ok .off else misfit .literalError
  | .value (.bool true) => .ok .basic
  | .value (.string "basic") => .ok .basic
  | .value (.string "extended") => .ok .extended
  | _ => misfit .literalError

/-- A hook on elements from a setting. -/
def elementHookOf : Setting → Checked (Option ElementHook)
  | .value .null => .ok none
  | .elementHook hook => .ok (some hook)
  | _ => misfit .callableType

/-- A hook on nodes from a setting. -/
def nodeHookOf : Setting → Checked (Option NodeHook)
  | .value .null => .ok none
  | .nodeHook hook => .ok (some hook)
  | _ => misfit .callableType

/-- The text of a number after zeros and underscores, the last of which is given.
    A zero stays before the end and before a point. -/
def afterZeros? (last : Char) : List Char → Option (List Char)
  | [] => some [last]
  | c :: rest =>
    if c = '0' ∨ c = '_' then afterZeros? c rest
    else if c = '.' then some (last :: c :: rest)
    else if c.isDigit ∨ c = '-' then some (c :: rest)
    else none

/-- The text of a number without its leading zeros, and the underscores among
    them. A minus sign may follow them, but not stand in their place. -/
def withoutLeadingZeros? : List Char → Option (List Char)
  | [] => none
  | c :: rest =>
    if c = '0' then afterZeros? c rest
    else if c.isDigit then some (c :: rest)
    else none

/-- The text of a number without a plus sign, which no minus sign may follow. -/
def withoutPlus? : List Char → Option (List Char)
  | '+' :: '-' :: _ => none
  | '+' :: rest => some rest
  | s => some s

/-- The text of a number without a fraction of zeros only. -/
def withoutZeroFraction (s : List Char) : List Char :=
  match s.dropWhile fun c => c != '.' with
  | _ :: '0' :: fraction =>
    if fraction.all (· == '0') then s.takeWhile fun c => c != '.' else s
  | _ => s

/-- The text of a number without underscores, if they stand one by one inside it. -/
def withoutUnderscores (s : List Char) : List Char :=
  let pieces := Text.splitOn '_' s
  if pieces.all fun piece => !piece.isEmpty then pieces.flatten else s

/-- A text without what the spelling of an integer may have besides its plain form:
    blank space around it, a plus sign, leading zeros, a fraction of zeros, and
    underscores. A minus sign stays in front. -/
def tidied? (s : List Char) : Option (List Char) := do
  let s ← withoutPlus? (Text.trimBy Number.isNumberBlank s)
  let sign := if s.head? = some '-' then ['-'] else []
  let digits ← withoutLeadingZeros? (s.drop sign.length)
  return withoutUnderscores (withoutZeroFraction (sign ++ digits))

/-- The integer that a text spells in its plain form: a minus sign or none, and
    digits without a needless zero. More digits than an integer can have are too
    many, whatever follows them. -/
def plainInteger (s : List Char) : Except FaultKind Int :=
  let unsigned := if s.head? = some '-' then s.drop 1 else s
  let digits := unsigned.takeWhile Char.isDigit
  if digits.isEmpty ∨ (1 < digits.length ∧ digits.head? = some '0') then .error .intParsing
  else if Number.mostDigits < digits.length then .error .intParsingSize
  else if digits.length < unsigned.length then .error .intParsing
  else
    let n : Int := Number.ofDigits (digits.map fun c => c.toNat - 0x30)
    .ok (if s.head? = some '-' then -n else n)

/-- The integer that a text spells. The text is read as it is, and tidied only if
    that makes no sense; what makes no sense after that is no integer. -/
def integerOfText (s : List Char) : Checked Int :=
  match plainInteger s with
  | .ok n => .ok n
  | .error .intParsingSize => misfit .intParsingSize
  | .error _ =>
    match (tidied? s).map plainInteger with
    | some (.ok n) => .ok n
    | _ => misfit .intParsing

/-- A limit of at least one from an integer. -/
def atLeastOne (n : Int) : Checked DepthLimit :=
  if 1 ≤ n then .ok (.whole n) else misfit .greaterThanEqual

/-- A limit from a setting. -/
def limitOf : Setting → Checked DepthLimit
  | .value (.integer n) => atLeastOne n
  | .value (.bool b) => atLeastOne (if b then 1 else 0)
  | .value (.float x) =>
    match x with
    | .finite .. =>
      match x.toInt? with
      | some n => if n.natAbs < Nat.pow 2 63 then atLeastOne n else misfit .intParsingSize
      | none => misfit .intFromFloat
    | _ => misfit .finiteNumber
  | .value (.string s) => do atLeastOne (← integerOfText s.toList)
  | _ => misfit .intType

/-- The names of the options, in the order in which faults are reported. -/
def optionNames : List String :=
  ["website_domain", "extract_main_content", "refify_urls", "url_map", "debug", "dom_parser",
    "enable_table_column_tracking", "include_meta_data", "override_element_processing",
    "process_unhandled_element", "override_node_renderer", "render_custom_node", "max_depth"]

/-- The value of one option among settings, with the faults so far: the checked
    setting, or the default when there is none or it does not fit. -/
def taken {α : Type} (settings : List (String × Setting)) (name : String)
    (check : Setting → Checked α) (default : α) : α × List SettingFault :=
  match Entries.lookup? settings name with
  | none => (default, [])
  | some setting =>
    match check setting with
    | .ok a => (a, [])
    | .error faults => (default, faults.map fun f => ⟨name :: f.location, f.kind⟩)

/-- The settings whose names are no options, as faults in the order of their
    names. -/
def strangers (settings : List (String × Setting)) : List SettingFault :=
  let names := (settings.map Prod.fst).filter fun name => !optionNames.contains name
  (names.mergeSort fun a b => a ≤ b).map fun name => ⟨[name], .extraForbidden⟩

/-- Options from settings, or all that is wrong with the settings. -/
def Options.ofSettings (settings : List (String × Setting)) :
    Except (List SettingFault) Options :=
  let d := Options.default
  let domain := taken settings "website_domain" domainOf d.websiteDomain
  let extract := taken settings "extract_main_content" flagOf d.extractMainContent
  let shorten := taken settings "refify_urls" flagOf d.shortenUrls
  let map := taken settings "url_map" mapOf d.urlMap
  let debug := taken settings "debug" flagOf d.debug
  let reader := taken settings "dom_parser" readerOf d.reader
  let track := taken settings "enable_table_column_tracking" flagOf d.trackTableColumns
  let metadata := taken settings "include_meta_data" choiceOf d.metadata
  let overrideElement := taken settings "override_element_processing" elementHookOf none
  let unhandled := taken settings "process_unhandled_element" elementHookOf none
  let overrideNode := taken settings "override_node_renderer" nodeHookOf none
  let custom := taken settings "render_custom_node" nodeHookOf none
  let depth := taken settings "max_depth" limitOf d.maxDepth
  let faults := domain.2 ++ extract.2 ++ shorten.2 ++ map.2 ++ debug.2 ++ reader.2 ++ track.2 ++
    metadata.2 ++ overrideElement.2 ++ unhandled.2 ++ overrideNode.2 ++ custom.2 ++ depth.2 ++
    strangers settings
  if faults.isEmpty then
    .ok
      { websiteDomain := domain.1
        extractMainContent := extract.1
        shortenUrls := shorten.1
        urlMap := map.1
        debug := debug.1
        reader := reader.1
        trackTableColumns := track.1
        metadata := metadata.1
        overrideElement := overrideElement.1
        unhandledElement := unhandled.1
        overrideNode := overrideNode.1
        renderCustom := custom.1
        maxDepth := depth.1 }
  else .error faults

/-- Whether a setting that is taken as it is turns a flag on. -/
def Setting.isOn : Setting → Bool
  | .value v => !v.isEmpty
  | _ => true

/-- The wish for metadata of a setting that is taken as it is: the value itself. -/
def Setting.metadata : Setting → MetadataChoice
  | .value v => .value v
  | _ => .program

/-- What a setting that is taken as it is cuts from URLs. An empty value that is no
    text cuts nothing. -/
def Setting.domain? : Setting → Option Domain
  | .value (.string s) => some (.text s)
  | .value v => if v.isEmpty then none else some (.notText v.kind)
  | _ => none

/-- The reader that a setting asks for that is taken as it is. -/
def Setting.pageReader : Setting → PageReader
  | .value (.string name) => .named name
  | .reader read => .custom read
  | .value v => .described v
  | _ => .described .null

/-- The limit of a setting that is taken as it is. Truth counts as one and
    falsehood as zero. -/
def Setting.limit : Setting → DepthLimit
  | .value (.integer n) => .whole n
  | .value (.bool b) => .whole (if b then 1 else 0)
  | .value (.float x) => .fraction x
  | .value v => .unordered v.kind
  | _ => .unordered .null

/-- The references of a setting that is taken as it is, if they are any. -/
def Setting.references (s : Setting) (before : ReferenceMap) : ReferenceMap :=
  match mapOf s with
  | .ok refs => refs
  | .error _ => before

/-- The hook on elements of a setting that is taken as it is. A value that is no
    hook fails when it is asked. -/
def Setting.elementHook? : Setting → Option ElementHook
  | .value .null => none
  | .elementHook hook => some hook
  | .value v => some fun _ _ _ => .error (.notCallable v.kind)
  | _ => none

/-- The hook on nodes of a setting that is taken as it is. A value that is no hook
    fails when it is asked. -/
def Setting.nodeHook? : Setting → Option NodeHook
  | .value .null => none
  | .nodeHook hook => some hook
  | .value v => some fun _ _ _ => .error (.notCallable v.kind)
  | _ => none

/-- Options with one setting taken as it is. -/
def Options.set (o : Options) (name : String) (s : Setting) : Options :=
  match name with
  | "website_domain" => { o with websiteDomain := s.domain? }
  | "extract_main_content" => { o with extractMainContent := s.isOn }
  | "refify_urls" => { o with shortenUrls := s.isOn }
  | "url_map" => { o with urlMap := s.references o.urlMap }
  | "debug" => { o with debug := s.isOn }
  | "dom_parser" => { o with reader := s.pageReader }
  | "enable_table_column_tracking" => { o with trackTableColumns := s.isOn }
  | "include_meta_data" => { o with metadata := s.metadata }
  | "override_element_processing" => { o with overrideElement := s.elementHook? }
  | "process_unhandled_element" => { o with unhandledElement := s.elementHook? }
  | "override_node_renderer" => { o with overrideNode := s.nodeHook? }
  | "render_custom_node" => { o with renderCustom := s.nodeHook? }
  | "max_depth" => { o with maxDepth := s.limit }
  | _ => o

/-- Options with settings taken as they are. -/
def Options.override (o : Options) (settings : List (String × Setting)) : Options :=
  settings.foldl (fun o (name, s) => o.set name s) o

/-- A conversion with changed options. The changes are made on a copy, so that
    the given options stay as they are when there are any. -/
def withOverrides (o : Options) (settings : List (String × Setting))
    (convert : Options → Outcome) : Outcome :=
  if settings.isEmpty then convert o
  else { convert (o.override settings) with options := o }

/-- Converts the text of a page with changed options. -/
def convertPageWith (readers : Readers) (o : Options) (settings : List (String × Setting))
    (html : String) : Outcome :=
  withOverrides o settings fun o => convertPage readers o html

/-- Converts an element of a page with changed options. -/
def convertElementWith (o : Options) (settings : List (String × Setting)) (e : Dom.Element) :
    Outcome :=
  withOverrides o settings fun o => convertElement o e

end PageDistill
