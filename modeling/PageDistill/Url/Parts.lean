import PageDistill.Text.Quoted
import PageDistill.Url.Address

/-!
# Parts of a URL

Where the authority of a web URL ends, and what its path is.

Only URLs that begin with `http://` or `https://` are taken apart. Tabs and line
breaks are dropped first. The authority runs to the first slash, question mark
or number sign after the two slashes; then the fragment, the query and the
parameters of the last path segment are cut off, and what remains is the path.

An authority with brackets of one kind only is refused. One with both kinds must
name its host by a long address, or one of a later version, which stands between
the brackets with nothing before them but the part up to an at sign, and nothing
after them but a port. An authority with a character that normalises to a
delimiter is refused too, because it would be read as another authority after
normalisation.

## Main definitions

* `isWebUrl`: The URLs that are taken apart.
* `Fault`: Why an authority is refused.
* `authority`, `path`: The two parts of a web URL.
* `path?`: The path of a web URL whose authority can be read.
* `fileSuffix`: What follows the last dot of the last segment of a path.

## Theorems

* `cutAtLast_eq_none`: Where nothing is cut, the character does not occur.
* `cutAtLast_eq_some`: A cut leaves the text as it was around the character.
-/

namespace PageDistill

namespace Url

/-- The two beginnings of a web URL. -/
def webPrefixes : List (List Char) := ["http://".toList, "https://".toList]

/-- The URLs that are taken apart; their beginning is compared exactly. -/
def isWebUrl (url : List Char) : Bool := webPrefixes.any fun start => start.isPrefixOf url

/-- Why the authority of a URL is refused. -/
inductive Fault where
  /-- Its brackets are not those around the host. -/
  | misplacedBracket
  /-- The host between the brackets begins like an address of a later version and
      is none. -/
  | badFutureAddress
  /-- The host between the brackets is no address. -/
  | notAddress (host : String)
  /-- The host between the brackets is a short address. -/
  | shortAddress
  /-- It has a character that normalises to a delimiter of URLs. -/
  | hiddenDelimiter (authority : String)
  deriving DecidableEq, Repr

/-- What is wrong with an authority, in words. -/
def Fault.message : Fault → String
  | .misplacedBracket => "Invalid IPv6 URL"
  | .badFutureAddress => "IPvFuture address is invalid"
  | .notAddress host =>
    String.ofList (Text.quote host.toList) ++ " does not appear to be an IPv4 or IPv6 address"
  | .shortAddress => "An IPv4 address cannot be in brackets"
  | .hiddenDelimiter authority =>
    "netloc '" ++ authority ++ "' contains invalid characters under NFKC normalization"

/-- The characters whose compatibility normal form holds one of the delimiters
    slash, question mark, number sign, at sign and colon. -/
def hiddenDelimiters : List Nat :=
  [0x2047, 0x2048, 0x2049, 0x2100, 0x2101, 0x2105, 0x2106, 0x2A74, 0xFE13, 0xFE16, 0xFE55, 0xFE56,
    0xFE5F, 0xFE6B, 0xFF03, 0xFF0F, 0xFF1A, 0xFF1F, 0xFF20]

/-- The characters that end an authority. -/
def endsAuthority (c : Char) : Bool := c == '/' || c == '?' || c == '#'

/-- A URL without tabs and line breaks. -/
def withoutBreaks (url : List Char) : List Char :=
  url.filter fun c => !(c == '\t' || c == '\r' || c == '\n')

/-- What follows the scheme and the two slashes of a web URL. -/
def afterScheme (url : List Char) : List Char :=
  ((withoutBreaks url).dropWhile fun c => c != '/').drop 2

/-- The authority of a web URL. -/
def authority (url : List Char) : List Char := (afterScheme url).takeWhile fun c => !endsAuthority c

/-- What follows the authority of a web URL. -/
def afterAuthority (url : List Char) : List Char :=
  (afterScheme url).dropWhile fun c => !endsAuthority c

/-- What stands before the last occurrence of a character, if it occurs, and what
    follows it; without an occurrence nothing stands before, and all follows. -/
def cutAtLast (sep : Char) (s : List Char) : Option (List Char) × List Char :=
  match s with
  | [] => (none, [])
  | c :: rest =>
    match cutAtLast sep rest with
    | (some before, after) => (some (c :: before), after)
    | (none, after) => if c = sep then (some [], after) else (none, c :: after)

/-- Where nothing is cut, the character does not occur. -/
theorem cutAtLast_eq_none (sep : Char) (s after : List Char)
    (h : cutAtLast sep s = (none, after)) : after = s ∧ sep ∉ s := by
  induction s generalizing after with
  | nil => simpa [cutAtLast, eq_comm] using h
  | cons c rest ih =>
      rw [cutAtLast] at h
      cases hc : cutAtLast sep rest with
      | mk front back =>
          rw [hc] at h
          -- No cut in the rest: then this character would have to be the last separator.
          cases front with
          | some front => simp at h
          | none =>
              by_cases hsep : c = sep
              · simp [hsep] at h
              · simp only [hsep, if_false, Prod.mk.injEq, true_and] at h
                rcases ih back hc with ⟨heq, hmem⟩
                rw [← h, heq, List.mem_cons, not_or]
                exact ⟨rfl, Ne.symm hsep, hmem⟩

/-- A cut leaves the text as it was around the character, which does not occur in what
    follows the cut. -/
theorem cutAtLast_eq_some (sep : Char) (s before after : List Char)
    (h : cutAtLast sep s = (some before, after)) : s = before ++ sep :: after ∧ sep ∉ after := by
  induction s generalizing before after with
  | nil => simp [cutAtLast] at h
  | cons c rest ih =>
      rw [cutAtLast] at h
      cases hc : cutAtLast sep rest with
      | mk front back =>
          rw [hc] at h
          cases front with
          | some front =>
              simp only [Prod.mk.injEq, Option.some.injEq] at h
              rcases ih front back hc with ⟨heq, hmem⟩
              rw [← h.1, ← h.2, heq]
              exact ⟨rfl, hmem⟩
          -- No separator follows, so the cut is here.
          | none =>
              by_cases hsep : c = sep
              · simp only [hsep, if_true, Prod.mk.injEq, Option.some.injEq] at h
                rcases cutAtLast_eq_none sep rest back hc with ⟨heq, hmem⟩
                rw [← h.1, ← h.2, heq, hsep]
                exact ⟨rfl, hmem⟩
              · simp [hsep] at h

/-- What is wrong with a host that stands between brackets, if anything is. -/
def hostFault? (host : List Char) : Option Fault :=
  if host.head? = some 'v' then
    if isFutureAddress host then none else some .badFutureAddress
  else if isShortAddress host then some .shortAddress
  else if isLongAddress host then none
  else some (.notAddress (String.ofList host))

/-- What is wrong with the brackets of an authority that has both kinds, if
    anything is. When the part after the last at sign has no opening bracket, what
    stands before its first colon is taken for the host. -/
def bracketFault? (authority : List Char) : Option Fault :=
  let hostAndPort := (cutAtLast '@' authority).2
  match hostAndPort.dropWhile fun c => c != '[' with
  | [] => hostFault? (hostAndPort.takeWhile fun c => c != ':')
  | _ :: bracketed =>
    let port := (bracketed.dropWhile fun c => c != ']').drop 1
    if hostAndPort.head? ≠ some '[' then some .misplacedBracket
    else if !port.isEmpty ∧ port.head? ≠ some ':' then some .misplacedBracket
    else hostFault? (bracketed.takeWhile fun c => c != ']')

/-- What is wrong with an authority, if anything is. -/
def authorityFault? (authority : List Char) : Option Fault :=
  let opens := authority.contains '['
  let closes := authority.contains ']'
  let brackets :=
    if opens != closes then some .misplacedBracket
    else if opens then bracketFault? authority
    else none
  match brackets with
  | some fault => some fault
  | none =>
    if authority.any fun c => hiddenDelimiters.contains c.toNat then
      some (.hiddenDelimiter (String.ofList authority))
    else none

/-- A path without the parameters of its last segment, which begin at the first
    semicolon of the segment. -/
def withoutParameters (path : List Char) : List Char :=
  match cutAtLast '/' path with
  | (some before, segment) => before ++ '/' :: segment.takeWhile fun c => c != ';'
  | (none, segment) => segment.takeWhile fun c => c != ';'

/-- The path of a web URL. -/
def path (url : List Char) : List Char :=
  withoutParameters (((afterAuthority url).takeWhile fun c => c != '#').takeWhile fun c => c != '?')

/-- The path of a web URL, or what is wrong with its authority. -/
def path? (url : List Char) : Except Fault (List Char) :=
  match authorityFault? (authority url) with
  | some fault => .error fault
  | none => .ok (path url)

/-- What follows the last dot of the last segment of a path, and nothing when the
    segment has no dot. -/
def fileSuffix (path : List Char) : List Char :=
  match cutAtLast '.' (cutAtLast '/' path).2 with
  | (some _, suffix) => suffix
  | (none, _) => []

end Url

end PageDistill
