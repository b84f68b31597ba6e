import PageDistill.Text.Blank
import PageDistill.Text.Quoted

/-!
# Values of Attributes

What an attribute of an element holds: a text or a list of texts. The class
attribute holds the list of its names, and other attributes hold lists where the
format says so.

A value keeps its form on the way into the semantic tree, so an address or an
entry of metadata may be a list there too. It is shown as one text wherever it is
written.

## Main definitions

* `AttrValue`: The values.
* `AttrValue.display`: A value inside a message.
* `AttrValue.isEmpty`: The values that count as missing.
-/

namespace PageDistill

namespace Dom

/-- The value of an attribute. -/
inductive AttrValue where
  | text (s : String)
  | list (items : List String)
  deriving DecidableEq, Repr

namespace AttrValue

/-- The value inside a message: a text as it is, and a list with its items
    between quotation marks. -/
def display : AttrValue → String
  | .text s => s
  | .list items =>
    let shown := items.map fun item => Text.quote item.toList
    String.ofList ('[' :: (Text.joinWith [',', ' '] shown ++ [']']))

/-- An empty text and an empty list are values that count as missing. -/
def isEmpty : AttrValue → Bool
  | .text s => s == ""
  | .list items => items.isEmpty

end AttrValue

end Dom

end PageDistill
