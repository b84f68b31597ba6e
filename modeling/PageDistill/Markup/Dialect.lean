/-!
# Two Ways to Read Markup

Markup is read as it was written, or completed: tags that the page leaves out are
put where they belong.

The two ways also differ in what they know about elements. A void element has no
contents, so its start tag is all of it. In some elements tags do not count: their
contents are text, with or without references, up to their own end tag.

## Main definitions

* `Completion`: The two ways.
* `Completion.isVoid`: The elements without contents.
* `Contents`, `Completion.contents`: What stands in an element.
-/

namespace PageDistill

namespace Markup

/-- The two ways to read a page: as it was written, or completed. -/
inductive Completion where
  | asWritten
  | completed
  deriving DecidableEq, Repr

/-- The elements that are written without an end tag when they are empty. -/
def emptyElements : List String :=
  ["area", "base", "br", "col", "embed", "hr", "img", "input", "keygen", "link", "menuitem", "meta",
    "param", "source", "track", "wbr", "basefont", "bgsound", "command", "frame", "image",
    "isindex", "nextid", "spacer"]

/-- The elements without contents of an older vocabulary, which completing goes
    by. -/
def classicEmptyElements : List String :=
  ["area", "base", "basefont", "br", "col", "frame", "hr", "img", "input", "isindex", "link",
    "meta", "param"]

/-- Whether an element can have no contents. -/
def Completion.isVoid (completion : Completion) (name : String) : Bool :=
  match completion with
  | .asWritten => emptyElements.contains name
  | .completed => classicEmptyElements.contains name

/-- What stands between the tags of an element. -/
inductive Contents where
  /-- Markup of every kind. -/
  | markup
  /-- Text with references, and no tags. -/
  | text
  /-- Text without references and tags. -/
  | raw
  /-- A script, which may hide its own end tag inside a comment. -/
  | script
  /-- Text without references and tags, up to the end of the page. -/
  | rest
  deriving DecidableEq, Repr

/-- What stands in an element of the given name. -/
def Completion.contents (completion : Completion) (name : String) : Contents :=
  match completion with
  | .asWritten => if name = "script" ∨ name = "style" then .raw else .markup
  | .completed =>
    if name = "script" then .script
    else if ["style", "iframe", "noembed", "noframes", "xmp"].contains name then .raw
    else if name = "title" ∨ name = "textarea" then .text
    else if name = "plaintext" then .rest
    else .markup

end Markup

end PageDistill
