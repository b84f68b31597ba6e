import PageDistill.ConversionError
import PageDistill.MainContent.Score
import PageDistill.Number.Integer
import PageDistill.Text.Fold

/-!
# Detecting the Main Content

Which element of a page holds its main content, and how it is marked.

A page may say so itself, with a `main` element or the role `main`. Otherwise
the elements of the body are scored, and those with enough points are the
candidates. They are ranked by their points, in document order among equals, and
the first is chosen; a candidate further down the ranking that lies inside no
other candidate takes its place if it has more points. When there is no
candidate, the body is kept, and when there is no body, the root of the page.

An element is known by its path, since two elements of a page may look the same.

## Main definitions

* `Placed`: An element with its path.
* `candidates`, `ranking`: The elements with enough points, and their order.
* `detect`: The best candidate below an element.
* `landmark?`: The element that the page marks itself.
* `findMain`: The element that holds the main content of a page.
* `wrapMain`: The page with that element marked.
-/

namespace PageDistill

namespace MainContent

/-- An element with its path from the page. -/
structure Placed where
  path : Dom.Path
  element : Dom.Element

/-- A placed element with its points. -/
structure Candidate where
  placed : Placed
  points : Nat

/-- The points that make an element a candidate. -/
def candidatePoints : Nat := 20

/-- An element as a note shows it: its name, its id and its class names. -/
def shownElement (e : Dom.Element) : String :=
  let id := e.tag.shown "id"
  let classes := Text.joinWith ['.'] (e.tag.classes.map String.toList)
  e.name ++ "#" ++ (if id = "" then "no-id" else id) ++ "." ++ String.ofList classes

/-- Points as a note shows them. -/
def shownPoints (n : Nat) : String := String.ofList (Number.naturalText n)

/-- An element and all below it, with their paths, in document order. -/
def below (root : Placed) : List Placed :=
  root :: (root.element.placed root.path).map fun (path, element) => ⟨path, element⟩

/-- The elements of a list that have enough points. -/
def candidates (elements : List Placed) : List Candidate :=
  (elements.map fun p => (⟨p, score p.element⟩ : Candidate)).filter fun c =>
    candidatePoints ≤ c.points

/-- The candidates by falling points. Equal candidates keep their order. -/
def ranking (cs : List Candidate) : List Candidate := cs.mergeSort fun a b => b.points ≤ a.points

/-- Whether a candidate lies inside another one of the ranking. -/
def liesInside (ranked : List Candidate) (c : Candidate) : Bool :=
  ranked.any fun other =>
    other.placed.path != c.placed.path && other.placed.path.isPrefixOf c.placed.path

/-- The choice among candidates, going down the ranking: one with more points
    that lies inside no other takes the place of the best so far. -/
def settle (ranked : List Candidate) : Candidate → List Candidate → Conversion Candidate
  | best, [] => return best
  | best, c :: rest =>
    if !liesInside ranked c ∧ best.points < c.points then do
      Traced.debug ("New best independent candidate: " ++ shownElement c.placed.element ++ " (" ++
        shownPoints c.points ++ ")")
      settle ranked c rest
    else settle ranked best rest

/-- The best candidate below an element, the element included; without a
    candidate, the element itself. -/
def detect (root : Placed) : Conversion Placed := do
  let found := candidates (below root)
  let _ ← Traced.each (fun (c : Candidate) =>
    Traced.debug ("Candidate " ++ shownElement c.placed.element ++ " scored " ++
      shownPoints c.points)) found
  let ranked := ranking found
  match ranked with
  | [] =>
    Traced.debug ("No candidate reached " ++ shownPoints candidatePoints ++ "; keeping " ++
      shownElement root.element)
    return root
  | first :: rest =>
    let best ← settle ranked first rest
    Traced.debug ("Selected main content: " ++ shownElement best.placed.element ++ " (" ++
      shownPoints best.points ++ ")")
    return best.placed

/-- The role of an element, with a list of roles as one text. The name of the
    attribute is compared without regard to case. -/
def roleText (e : Dom.Element) : List Char :=
  match e.tag.attrs.find? fun (name, _) => Text.foldName name == "role" with
  | some (_, .text role) => role.toList
  | some (_, .list roles) => Text.joinWith [' '] (roles.map String.toList)
  | none => []

/-- Whether an element says itself that it holds the main content: by its name,
    in any case, or by its role, which may end in a line feed. -/
def isLandmark (e : Dom.Element) : Bool :=
  Text.foldName e.name == "main" ||
    roleText e == "main".toList || roleText e == "main\n".toList

/-- The elements of a page with their paths, in document order. -/
def placedElements (d : Dom.Document) : List Placed :=
  (d.root.placed []).map fun (path, element) => ⟨path, element⟩

/-- The first element that says itself that it holds the main content. -/
def landmark? (d : Dom.Document) : Option Placed :=
  (placedElements d).find? fun p => isLandmark p.element

/-- The first element of exactly the given name. -/
def firstNamed? (d : Dom.Document) (name : String) : Option Placed :=
  (placedElements d).find? fun p => p.element.name == name

/-- A page as a placed element. -/
def wholePage (d : Dom.Document) : Placed := ⟨[], d.root⟩

/-- The element that holds the main content of a page. -/
def findMain (d : Dom.Document) : Conversion Placed :=
  match landmark? d with
  | some p => do
    Traced.debug ("Explicit main landmark found: " ++ shownElement p.element)
    return p
  | none =>
    match firstNamed? d "body" with
    | some body => detect body
    | none => do
      Traced.debug "No <body>; using document root"
      match firstNamed? d "html" with
      | some html => return html
      | none => return (placedElements d).head?.getD (wholePage d)

/-- The id of the element that marks the main content. -/
def markerId : String := "detected-main-content"

/-- The tag of the element that marks the main content. -/
def markerTag : Dom.Tag := ⟨"main", [("id", .text markerId)]⟩

/-- The page with an element marked by a `main` element around it, at the same
    path. An element of that name needs no mark, and the page itself cannot have
    one. -/
def wrapMain (p : Placed) (d : Dom.Document) : Conversion Dom.Document :=
  if p.element.name = "main" then return d
  else if p.path = [] then Traced.fail .wrapsWholePage
  else do
    Traced.debug ("Wrapped " ++ shownElement p.element ++ " in <main id=" ++ markerId ++ ">")
    return d.modifyAt p.path fun node => .element markerTag [node]

end MainContent

end PageDistill
