import PageDistill.Text.Blank

/-!
# Numeric Addresses of Hosts

Which texts are the address of a host in numbers.

A short address is four numbers below 256 between points. A long one is eight
groups of up to four hexadecimal digits between colons; one run of groups may be
left out, two colons standing for it, and a short address may stand for the last
two groups. A long address may name a zone after a percent sign. An address of a
later version begins with the letter `v` and the number of the version.

Groups that are left out are at least one, and a colon stands at either end only
as part of the two colons that stand for them.

## Main definitions

* `isShortAddress`, `isLongAddress`, `isFutureAddress`: The three forms.
-/

namespace PageDistill

namespace Url

/-- A hexadecimal digit of either case. -/
def isHexDigit (c : Char) : Bool :=
  c.isDigit || ('a' ≤ c && c ≤ 'f') || ('A' ≤ c && c ≤ 'F')

/-- Whether a text is one of the four numbers of a short address: digits without
    a needless zero, for a number below 256. -/
def isOctet (s : List Char) : Bool :=
  !s.isEmpty && s.length ≤ 3 && s.all Char.isDigit && (s.head? != some '0' || s == ['0']) &&
    s.foldl (fun n c => 10 * n + (c.toNat - 0x30)) 0 ≤ 255

/-- Whether a text is a short address. -/
def isShortAddress (s : List Char) : Bool :=
  let octets := Text.splitOn '.' s
  octets.length == 4 && octets.all isOctet

/-- Whether a text is a group of a long address. -/
def isGroup (s : List Char) : Bool := !s.isEmpty && s.length ≤ 4 && s.all isHexDigit

/-- The number of groups of a long address. -/
def groupCount : Nat := 8

/-- The groups of a long address with a short one at the end replaced by the two
    groups that it stands for. A short address that is not one leaves nothing. -/
def withoutShortEnd? (groups : List (List Char)) : Option (List (List Char)) :=
  match groups.getLast? with
  | none => some groups
  | some last =>
    if last.contains '.' then
      if isShortAddress last then some (groups.dropLast ++ [['0'], ['0']]) else none
    else some groups

/-- Whether the groups before the place of the groups that are left out, or those
    after it, are in order: one empty group stands for a colon at the end of the
    address, and any others are groups. -/
def isSide (groups : List (List Char)) : Bool := groups == [[]] || groups.all isGroup

/-- The number of groups on one side of those that are left out. -/
def sideCount (groups : List (List Char)) : Nat := if groups == [[]] then 0 else groups.length

/-- Whether groups make a long address, some of them empty where colons meet. At
    most one group between the first and the last may be empty. -/
def isGroupList (groups : List (List Char)) : Bool :=
  let inner := (groups.drop 1).dropLast
  match (inner.filter List.isEmpty).length with
  | 0 => groups.length == groupCount && groups.all isGroup
  | 1 =>
    let front := groups.take 1 ++ inner.takeWhile fun g => !g.isEmpty
    let back := (inner.dropWhile fun g => !g.isEmpty).drop 1 ++ groups.drop (groups.length - 1)
    isSide front && isSide back && sideCount front + sideCount back < groupCount
  | _ => false

/-- Whether a text is a long address without a zone. -/
def isPlainLongAddress (s : List Char) : Bool :=
  let groups := Text.splitOn ':' s
  if groups.length < 3 then false
  else
    match withoutShortEnd? groups with
    | none => false
    | some groups => groups.length ≤ groupCount + 1 && isGroupList groups

/-- Whether a text is a long address. A zone is not empty and has no percent sign
    of its own. -/
def isLongAddress (s : List Char) : Bool :=
  match s.dropWhile fun c => c != '%' with
  | [] => isPlainLongAddress s
  | _ :: zone =>
    !zone.isEmpty && !zone.contains '%' && isPlainLongAddress (s.takeWhile fun c => c != '%')

/-- Whether a text is an address of a later version: the letter `v`, the version
    in hexadecimal digits, a point, and the address itself. -/
def isFutureAddress (s : List Char) : Bool :=
  match s with
  | 'v' :: rest =>
    match rest.dropWhile isHexDigit with
    | '.' :: address => rest.head?.any isHexDigit && !address.isEmpty
    | _ => false
  | _ => false

end Url

end PageDistill
