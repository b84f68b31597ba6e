import PageDistill.Number.Binary64

/-!
# JSON Values

The values of structured data blocks, with what a reader of such data keeps:
the order of an object's members, and the difference between an integer and a
number with a fraction or exponent.

The members of an object are entries by key, and an object holds each key once.

## Main definitions

* `Value`: The values.
* `Kind`, `Value.kind`: What a value is.
* `Value.isEmpty`: The values that stand for nothing.
-/

namespace PageDistill

namespace Json

/-- A JSON value. -/
inductive Value where
  | null
  | bool (b : Bool)
  | integer (n : Int)
  | float (x : Binary64)
  | string (s : String)
  | array (items : List Value)
  | object (members : List (String × Value))
  deriving Repr, Inhabited

/-- What a value is, apart from its contents. -/
inductive Kind where
  | null
  | bool
  | integer
  | float
  | string
  | array
  | object
  deriving DecidableEq, Repr

/-- The kind of a value. -/
def Value.kind : Value → Kind
  | .null => .null
  | .bool _ => .bool
  | .integer _ => .integer
  | .float _ => .float
  | .string _ => .string
  | .array _ => .array
  | .object _ => .object

/-- The values that stand for nothing: null, false, zeros, and the empty text,
    list and object. -/
def Value.isEmpty : Value → Bool
  | .null => true
  | .bool b => !b
  | .integer n => n == 0
  | .float x => x.isZero
  | .string s => s == ""
  | .array items => items.isEmpty
  | .object members => members.isEmpty

end Json

end PageDistill
