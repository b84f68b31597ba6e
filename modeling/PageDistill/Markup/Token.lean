import PageDistill.Dom.Node
import PageDistill.Entries
import PageDistill.Markup.Dialect
import PageDistill.Markup.Escaping
import PageDistill.Text.Fold

/-!
# Tokens of Markup

The text of a page cut into start tags, end tags, text, and strings of other
kinds.

The reader is made for well-formed HTML and takes the rest as it comes: an angle
bracket that begins no token is text, and a token that is not closed runs to the
end. Names are folded to lower case. After the start of an element in which tags
do not count, everything up to its end tag is text.

The two ways to read markup have rules of their own for a few things: where a
comment ends, which end tag ends raw text, and which of two attributes of one name
counts. Some attributes hold a list of words; `class` does in every element.

Every token takes at least one character, so the length of the text bounds the
number of tokens; `tokens` passes it on as the recursion's measure.

## Main definitions

* `Token`: The tokens.
* `cutAt`: A text before and after the first occurrence of another.
* `readAttrs`: The attributes in a start tag.
* `cutContents?`: The text of an element in which tags do not count.
* `tokens`: The tokens of a text.
-/

namespace PageDistill

namespace Markup

/-- A piece of markup. -/
inductive Token where
  | startTag (name : String) (attrs : List (String × Dom.AttrValue)) (closed : Bool)
  | endTag (name : String)
  | text (content : List Char)
  | special (kind : Dom.Special) (content : List Char)
  deriving DecidableEq, Repr

/-- The blank characters between the parts of a tag, and those of which a text
    that only lays out the source consists. -/
def isMarkupBlank (c : Char) : Bool :=
  c == ' ' || c == '\t' || c == '\n' || c == '\r' || c.toNat == 0xC

/-- What stands before the first occurrence of a mark, and what follows it;
    without one, everything and nothing. -/
def cutAt (mark : List Char) : List Char → List Char × List Char
  | [] => ([], [])
  | c :: rest =>
    if mark.isPrefixOf (c :: rest) then ([], (c :: rest).drop mark.length)
    else
      match cutAt mark rest with
      | (before, after) => (c :: before, after)

/-- The attributes that hold a list of words in every element. -/
def wordListAttrs : List String := ["class", "accesskey", "dropzone"]

/-- The attributes that hold a list of words in elements of some name. -/
def wordListAttrsOf : List (String × List String) :=
  [("a", ["rel", "rev"]), ("link", ["rel", "rev"]), ("td", ["headers"]), ("th", ["headers"]),
    ("form", ["accept-charset"]), ("object", ["archive"]), ("area", ["rel"]), ("icon", ["sizes"]),
    ("iframe", ["sandbox"]), ("output", ["for"])]

/-- Whether an attribute holds a list of words. -/
def holdsWords (element name : String) : Bool :=
  wordListAttrs.contains name ||
    ((Entries.lookup? wordListAttrsOf element).getD []).contains name

/-- The words of a text: its longest pieces without blank. -/
def wordsOf (s : List Char) : List (List Char) :=
  let pieces := s.foldr (fun c (pieces : List (List Char)) =>
    if Text.isBlank c then [] :: pieces
    else
      match pieces with
      | [] => [[c]]
      | piece :: others => (c :: piece) :: others) [[]]
  pieces.filter fun piece => !piece.isEmpty

/-- The value of an attribute from its text. -/
def attrValue (element name : String) (value : List Char) : Dom.AttrValue :=
  if holdsWords element name then .list ((wordsOf value).map String.ofList)
  else .text (String.ofList value)

/-- The attributes with one more. When a page is completed, the first of two
    attributes of one name counts, and otherwise the last. -/
def addAttr (completion : Completion) (attrs : List (String × Dom.AttrValue)) (name : String)
    (value : Dom.AttrValue) : List (String × Dom.AttrValue) :=
  match completion with
  | .completed => if (Entries.lookup? attrs name).isSome then attrs else attrs ++ [(name, value)]
  | .asWritten => Entries.put attrs name value

/-- Whether a character ends the name of a tag. -/
def endsTagName (c : Char) : Bool := isMarkupBlank c || c == '/' || c == '>'

/-- Whether a character ends the name of an attribute. -/
def endsName (c : Char) : Bool := endsTagName c || c == '='

/-- The value of an attribute after its equals sign, and the text after it. -/
def readAttrValue (s : List Char) : List Char × List Char :=
  match s.dropWhile isMarkupBlank with
  | '"' :: rest => cutAt ['"'] rest
  | '\'' :: rest => cutAt ['\''] rest
  | rest =>
    (rest.takeWhile fun c => !(isMarkupBlank c || c == '>'),
      rest.dropWhile fun c => !(isMarkupBlank c || c == '>'))

/-- The attributes of a start tag after its name, whether a slash ends the tag,
    and the text after it. The measure bounds the number of attributes. -/
def readAttrs (completion : Completion) (element : String) :
    Nat → List (String × Dom.AttrValue) → List Char →
      List (String × Dom.AttrValue) × Bool × List Char
  | 0, attrs, s => (attrs, false, s)
  | fuel + 1, attrs, s =>
    match s.dropWhile isMarkupBlank with
    | [] => (attrs, false, [])
    | '>' :: rest => (attrs, false, rest)
    | '/' :: '>' :: rest => (attrs, true, rest)
    | '/' :: rest => readAttrs completion element fuel attrs rest
    | c :: rest =>
      -- An equals sign without a name before it counts as part of a name.
      let name := Text.fold (c :: rest.takeWhile fun d => !endsName d)
      let name := String.ofList name
      let after := rest.dropWhile fun d => !endsName d
      match after.dropWhile isMarkupBlank with
      | '=' :: value =>
        match readAttrValue value with
        | (value, rest) =>
          let value := attrValue element name (readText value)
          readAttrs completion element fuel (addAttr completion attrs name value) rest
      | _ =>
        let value := attrValue element name []
        readAttrs completion element fuel (addAttr completion attrs name value) after

/-- Whether a letter stands at the front, which begins the name of a tag. -/
def beginsName (s : List Char) : Bool :=
  match s with
  | c :: _ => c.isAlpha
  | [] => false

/-- What follows the opening `<!` of a token that is no comment: a doctype, or
    another string. The content of a doctype begins one character after the word, or
    at the name when a page is completed. -/
def declarationToken (completion : Completion) (content : List Char) : Token :=
  if "doctype".toList.isPrefixOf (Text.fold content) then
    match completion with
    | .asWritten => .special .doctype (content.drop 8)
    | .completed => .special .doctype ((content.drop 7).dropWhile isMarkupBlank)
  else .special .comment content

/-- Whether a text begins with the end tag of an element whose tags do not count. As
    written, the tag may hold blank space around the name and nothing else. When a
    page is completed, the name must be followed by something that ends it. -/
def beginsEndTag (completion : Completion) (name s : List Char) : Bool :=
  match s with
  | '<' :: '/' :: rest =>
    let rest :=
      match completion with
      | .asWritten => rest.dropWhile Text.isBlank
      | .completed => rest
    name.isPrefixOf (Text.fold (rest.take name.length)) &&
      match completion with
      | .asWritten => ((rest.drop name.length).dropWhile Text.isBlank).head? == some '>'
      | .completed => (rest.drop name.length).head?.all endsTagName
  | _ => false

/-- The raw text of an element up to its end tag, and the text from the end tag
    on. -/
def cutRaw (completion : Completion) (name : List Char) : List Char → List Char × List Char
  | [] => ([], [])
  | c :: rest =>
    if beginsEndTag completion name (c :: rest) then ([], c :: rest)
    else
      match cutRaw completion name rest with
      | (before, after) => (c :: before, after)

/-- Where a place in a script stands: outside of comments, inside one, or inside a
    script that begins inside of one. -/
inductive ScriptPlace where
  | outside
  | comment
  | nested
  deriving DecidableEq, Repr

/-- The name of a script. -/
def scriptName : List Char := "script".toList

/-- Whether a text begins with the start tag of a script. -/
def beginsScript (s : List Char) : Bool :=
  ('<' :: scriptName).isPrefixOf (Text.fold (s.take (scriptName.length + 1))) &&
    (s.drop (scriptName.length + 1)).head?.any endsTagName

/-- The place after a character of a script, given the text from that character
    on. -/
def ScriptPlace.next (place : ScriptPlace) (s : List Char) : ScriptPlace :=
  match place with
  | .outside => if "<!--".toList.isPrefixOf s then .comment else .outside
  | .comment =>
    if "-->".toList.isPrefixOf s then .outside else if beginsScript s then .nested else .comment
  | .nested =>
    if "-->".toList.isPrefixOf s then .outside
    else if beginsEndTag .completed scriptName s then .comment
    else .nested

/-- The text of a script up to its end tag, and the text from the end tag on. The end
    tag of a script that begins inside a comment does not end the outer one. -/
def cutScript (place : ScriptPlace) : List Char → List Char × List Char
  | [] => ([], [])
  | c :: rest =>
    if place != .nested && beginsEndTag .completed scriptName (c :: rest) then ([], c :: rest)
    else
      match cutScript (place.next (c :: rest)) rest with
      | (before, after) => (c :: before, after)

/-- The text of an element in which tags do not count, and the text from its end tag
    on; nothing for an element that holds markup. -/
def cutContents? (completion : Completion) (name : String) (s : List Char) :
    Option (List Char × List Char) :=
  match completion.contents name with
  | .markup => none
  | .raw => some (cutRaw completion name.toList s)
  | .script => some (cutScript .outside s)
  | .rest => some (s, [])
  | .text =>
    match cutRaw completion name.toList s with
    | (content, rest) => some (readText content, rest)

/-- What follows the end of a comment as it is written, which may have blank space
    between its hyphens and its angle bracket, if a text begins with one. -/
def afterCommentEnd? (s : List Char) : Option (List Char) :=
  match s with
  | '-' :: '-' :: rest =>
    match rest.dropWhile Text.isBlank with
    | '>' :: after => some after
    | _ => none
  | _ => none

/-- The content of a comment as it is written, and the text after it. -/
def cutComment : List Char → List Char × List Char
  | [] => ([], [])
  | c :: rest =>
    match afterCommentEnd? (c :: rest) with
    | some after => ([], after)
    | none =>
      match cutComment rest with
      | (before, after) => (c :: before, after)

/-- The content of a comment after its opening mark, and the text after it. When a
    page is completed, an angle bracket ends the comment that it begins, with up to
    one hyphen before it, and an exclamation mark may stand before the bracket that
    ends a comment. -/
def readComment (completion : Completion) (s : List Char) : List Char × List Char :=
  match completion, s with
  | .completed, '>' :: rest => ([], rest)
  | .completed, '-' :: '>' :: rest => ([], rest)
  | .completed, s =>
    let usual := cutAt "-->".toList s
    let other := cutAt "--!>".toList s
    if other.1.length < usual.1.length then other else usual
  | .asWritten, s => cutComment s

/-- The token at the front of a text that begins with an angle bracket and a slash,
    which are left out, with the text after it. -/
def readEndTag (completion : Completion) (s : List Char) : Token × List Char :=
  let named :=
    match completion with
    | .asWritten => s.dropWhile Text.isBlank
    | .completed => s
  if beginsName named then
    match cutAt ['>'] named with
    | (content, rest) =>
      (.endTag (String.ofList (Text.fold (content.takeWhile fun c => !endsTagName c))), rest)
  else
    match s with
    | [] => (.text ['<', '/'], [])
    | '>' :: rest => (.text [], rest)
    | _ =>
      match cutAt ['>'] s with
      | (content, rest) => (.special .comment content, rest)

/-- The token at the front of a text that begins with an angle bracket and a question
    mark, which are left out, with the text after it. -/
def readInstruction (completion : Completion) (s : List Char) : Token × List Char :=
  match completion, cutAt ['>'] s with
  | .asWritten, (content, rest) => (.special .instruction content, rest)
  | .completed, (content, rest) => (.special .comment ('?' :: content), rest)

/-- The token at the front of a text that is not empty, with the text after it. The
    measure bounds the number of attributes. -/
def nextToken (completion : Completion) (fuel : Nat) (s : List Char) : Token × List Char :=
  match s with
  | '<' :: '!' :: '-' :: '-' :: rest =>
    match readComment completion rest with
    | (content, rest) => (.special .comment content, rest)
  | '<' :: '!' :: rest =>
    match cutAt ['>'] rest with
    | (content, rest) => (declarationToken completion content, rest)
  | '<' :: '?' :: rest => readInstruction completion rest
  | '<' :: '/' :: rest => readEndTag completion rest
  | '<' :: rest =>
    if beginsName rest then
      let name := String.ofList (Text.fold (rest.takeWhile fun c => !endsTagName c))
      let after := rest.dropWhile fun c => !endsTagName c
      match readAttrs completion name fuel [] after with
      | (attrs, closed, rest) => (.startTag name attrs closed, rest)
    else (.text ['<'], rest)
  | _ => (.text (readText (s.takeWhile fun c => c != '<')), s.dropWhile fun c => c != '<')

/-- The tokens of a text. The measure bounds their number; as it bounds the length of
    the text, it bounds the number of attributes too. -/
def tokensWithin (completion : Completion) : Nat → List Char → List Token
  | 0, _ => []
  | _ + 1, [] => []
  | fuel + 1, c :: rest =>
    match nextToken completion (fuel + 1) (c :: rest) with
    | (.startTag name attrs closed, rest) =>
      match if closed then none else cutContents? completion name rest with
      | some (content, rest) =>
        .startTag name attrs closed :: .text content :: tokensWithin completion fuel rest
      | none => .startTag name attrs closed :: tokensWithin completion fuel rest
    | (token, rest) => token :: tokensWithin completion fuel rest

/-- The tokens of a text. -/
def tokens (completion : Completion) (s : List Char) : List Token :=
  tokensWithin completion s.length s

end Markup

end PageDistill
