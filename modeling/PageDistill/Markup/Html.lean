import PageDistill.Convert
import PageDistill.Markup.Encoding
import PageDistill.Markup.Reader
import PageDistill.Markup.Writer

/-!
# Readers of HTML

Two readers of HTML by their names, with a writer for the pages that they make.

The one reader completes a page, and the other one takes it as it is written. A value
asks for one of them by a name or by several, and of the readers that answer to all of
these the preferred one is taken.

Both are readers of markup in proper form and refuse no text. The pages of both are
written in one way: an element that names the encoding of its markup names that of the
written markup then.

## Main definitions

* `htmlNames`: The readers and the names they answer to.
* `findCompletion`: The reader that a value asks for.
* `writtenText`: An element as it is written.
* `htmlPage`: The page of a text.
* `htmlReaders`: The readers.

## Theorems

* `openPage_html`, `openPage_asWritten`: Reading with one of them.
-/

namespace PageDistill

namespace Markup

/-- The readers with the names they answer to, the preferred one first. -/
def htmlNames : List (Completion × List String) :=
  [(.completed, ["lxml", "lxml-html", "html", "fast", "permissive"]),
    (.asWritten, ["html.parser", "html", "strict"])]

/-- Whether a reader answers to a name. -/
def answersTo (reader : Completion × List String) : Json.Value → Bool
  | .string name => reader.2.contains name
  | _ => false

/-- The reader that answers to all of the names which any reader answers to; other
    names do not count. -/
def readerFor? (names : List Json.Value) : Option Completion :=
  let known := names.filter fun name => htmlNames.any fun reader => answersTo reader name
  if known.isEmpty then none
  else (htmlNames.find? fun reader => known.all (answersTo reader)).map Prod.fst

/-- The names that a value asks for a reader by. A text is one name, the keys of an
    object are names, and nothing asks for the preferred reader. -/
def readerNames (features : Json.Value) : Except ReaderFault (List Json.Value) :=
  let names : Except ReaderFault (List Json.Value) :=
    match features with
    | .null => .ok []
    | .string name => .ok [.string name]
    | .array items => .ok items
    | .object members => .ok (members.map fun (key, _) => .string key)
    | value => .error (.notNames value.kind)
  names.map fun names => if names.isEmpty then [.string "html"] else names

/-- The first of some names that cannot be looked up, by its kind. -/
def unhashable? (names : List Json.Value) : Option Json.Kind :=
  (names.find? fun name => name.kind = .array || name.kind = .object).map Json.Value.kind

/-- What is said about names to which no reader answers, when the value that asked
    is shown in some way: the first name that is not text, if there is one. -/
def noReader (shown : String) (names : List Json.Value) : ReaderFault :=
  match names.findIdx? fun name => name.kind != .string with
  | some position => .notText position ((names[position]?.map Json.Value.kind).getD .null)
  | none =>
    .unavailable shown (names.filterMap fun name =>
      match name with
      | .string s => some s
      | _ => none)

/-- The reader that a value asks for. -/
def findCompletion (features : Json.Value) : Except ReaderFault Completion := do
  let names ← readerNames features
  match unhashable? names, readerFor? names with
  | some kind, _ => .error (.notName kind)
  | none, some completion => return completion
  | none, none => .error (noReader (String.ofList features.quoted) names)

/-- An element as it is written, with the encoding of written markup. -/
def writtenText (e : Dom.Element) : String := String.ofList (writeElement (encodeElement e))

/-- A page that is written in the way of these readers. -/
def htmlPage (d : Dom.Document) : Page := ⟨d, writtenText⟩

/-- The readers. -/
def htmlReaders : Readers := fun features =>
  (findCompletion features).map fun completion html =>
    .ok (htmlPage (readPage completion html.toList))

/-- A reader that is there reads every text. -/
theorem openPage_html {reader : PageReader} {features : Json.Value} {completion : Completion}
    (hasked : reader.find htmlReaders = htmlReaders features)
    (hfound : findCompletion features = .ok completion) (html : String) :
    openPage htmlReaders reader html = pure (htmlPage (readPage completion html.toList)) := by
  unfold openPage
  rw [hasked, htmlReaders, hfound]
  rfl

theorem findCompletion_asWritten : findCompletion (.string "html.parser") = .ok .asWritten :=
  rfl

/-- The page of a text that is taken as it is written. -/
theorem openPage_asWritten {html : String} {d : Dom.Document}
    (hread : readPage .asWritten html.toList = d) :
    (openPage htmlReaders (.named "html.parser") html).result = .ok (htmlPage d) := by
  rw [openPage_html rfl findCompletion_asWritten, hread]
  rfl

end Markup

end PageDistill
