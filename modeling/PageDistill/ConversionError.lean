import PageDistill.Json.Writer
import PageDistill.Traced
import PageDistill.Url.Parts

/-!
# Errors of a Conversion

The ways in which a conversion can fail, and what is said about each.

Options that were set without a check may hold values of another type than they
should. Such a value is an error where it is used, and not before, so an error
says what was expected there and the kind of the value that was found.

## Main definitions

* `HookFault`: The ways in which a hook can fail.
* `ReaderFault`: The ways in which asking for a reader can fail.
* `ConversionError`: The causes.
* `ConversionError.message`: What went wrong, in words.
* `Conversion`: A traced computation that may fail in these ways.
-/

namespace PageDistill

/-- The ways in which a hook can fail. -/
inductive HookFault where
  /-- The hook refused, with a text of its own. -/
  | refused (text : String)
  /-- What stands in the place of the hook is no hook. -/
  | notCallable (kind : Json.Kind)
  deriving DecidableEq, Repr

/-- The ways in which asking for a reader can fail. -/
inductive ReaderFault where
  /-- No reader has the names that were asked for. -/
  | unavailable (shown : String) (names : List String)
  /-- What was asked for is neither a name nor a list of names. -/
  | notNames (kind : Json.Kind)
  /-- A member of the list that cannot be looked up. -/
  | notName (kind : Json.Kind)
  /-- A member of the list that is not text, at a position, while no reader has
      any of the names. -/
  | notText (position : Nat) (kind : Json.Kind)
  deriving DecidableEq, Repr

/-- The ways in which a conversion can fail. -/
inductive ConversionError where
  /-- A hook failed. -/
  | hook (fault : HookFault)
  /-- There is no reader of the kind that was asked for. -/
  | reader (fault : ReaderFault)
  /-- The reader refused the text of a page, for a reason of its own. -/
  | rejected (reason : String)
  /-- A URL to shorten cannot be read. -/
  | badUrl (fault : Url.Fault)
  /-- A list stands where the URL to shorten should be. -/
  | urlIsList
  /-- The page itself has no place in which it could be wrapped. -/
  | wrapsWholePage
  /-- The limit of nesting cannot be compared with a depth. -/
  | limitUnordered (kind : Json.Kind)
  /-- The domain to cut from URLs is not text. -/
  | domainNotText (kind : Json.Kind)
  /-- An integer has too many digits to be read, or to be written. -/
  | tooManyDigits (count : Option Nat)
  /-- The machine has no room for as many calls one inside another. -/
  | tooNested
  deriving DecidableEq, Repr

/-- What went wrong with a hook, in words. -/
def HookFault.message : HookFault → String
  | .refused text => text
  | .notCallable kind => "'" ++ kind.display ++ "' object is not callable"

/-- What went wrong with asking for a reader, in words. -/
def ReaderFault.message : ReaderFault → String
  | .unavailable shown names =>
    "HTML parser " ++ shown ++ " is not available: " ++
      "Couldn't find a tree builder with the features you requested: " ++
      String.intercalate "," names ++ ". Do you need to install a parser library?"
  | .notNames kind => "object of type '" ++ kind.display ++ "' has no len()"
  | .notName kind => "unhashable type: '" ++ kind.display ++ "'"
  | .notText position kind =>
    "sequence item " ++ String.ofList (Number.naturalText position) ++
      ": expected str instance, " ++ kind.display ++ " found"

namespace ConversionError

/-- What went wrong, in words. -/
def message : ConversionError → String
  | .hook fault => fault.message
  | .reader fault => fault.message
  | .rejected reason => reason
  | .badUrl fault => fault.message
  | .urlIsList => "'list' object has no attribute 'startswith'"
  | .wrapsWholePage =>
    "Cannot replace one element with another when the element to be replaced is not part of a tree."
  | .limitUnordered kind =>
    "'>' not supported between instances of 'int' and '" ++ kind.display ++ "'"
  | .domainNotText kind =>
    "startswith first arg must be str or a tuple of str, not " ++ kind.display
  | .tooManyDigits count => Number.tooManyDigits count
  | .tooNested => "maximum recursion depth exceeded"

end ConversionError

/-- The computations of a conversion. -/
abbrev Conversion := Traced ConversionError

end PageDistill
