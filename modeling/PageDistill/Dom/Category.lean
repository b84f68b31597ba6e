import PageDistill.Entries
import PageDistill.Markdown.Node
import PageDistill.Text.Fold

/-!
# Categories of Elements

What an element is, from its name alone. The name is compared without regard to
case.

The head of a page is a category of its own only when its metadata is wanted.
Otherwise it is an element like any unknown one, whose contents are gone through.

## Main definitions

* `Category`: The categories.
* `semanticNames`, `droppedNames`: The names with a meaning of their own, and
  the elements that are left out.
* `categoryOf`: The category of a name.
* `Category.label`: The name of a category.

## Theorems

* `categoryOfFolded_cases`: Where a category comes from.
-/

namespace PageDistill

namespace Dom

/-- The categories of elements. A heading has its level, emphasis its style and
    a semantic element its name in lower case. -/
inductive Category where
  | heading (level : Nat)
  | paragraph
  | link
  | image
  | video
  | list
  | lineBreak
  | table
  | head
  | dropped
  | emphasis (style : Markdown.Emphasis)
  | code
  | quote
  | semantic (element : String)
  | unhandled
  deriving DecidableEq, Repr

/-- The names of the elements that say what part of a page they are. -/
def semanticNames : List String :=
  ["article", "aside", "details", "figcaption", "figure", "footer", "header", "main", "mark",
    "nav", "section", "summary", "time"]

/-- The names of the elements that are left out with all they hold. -/
def droppedNames : List String := ["noscript", "script", "style", "html"]

/-- The names that have a category of their own. -/
def namedCategories : List (String × Category) :=
  [("h1", .heading 1), ("h2", .heading 2), ("h3", .heading 3), ("h4", .heading 4),
    ("h5", .heading 5), ("h6", .heading 6), ("p", .paragraph), ("a", .link), ("img", .image),
    ("video", .video), ("ul", .list), ("ol", .list), ("br", .lineBreak), ("table", .table),
    ("strong", .emphasis .bold), ("b", .emphasis .bold), ("em", .emphasis .italic),
    ("i", .emphasis .italic), ("s", .emphasis .strikethrough),
    ("strike", .emphasis .strikethrough), ("code", .code), ("blockquote", .quote)]

/-- The category of a name in lower case. -/
def categoryOfFolded (withMetadata : Bool) (name : String) : Category :=
  if name = "head" then (if withMetadata then .head else .unhandled)
  else if droppedNames.contains name then .dropped
  else if semanticNames.contains name then .semantic name
  else (Entries.lookup? namedCategories name).getD .unhandled

/-- The category of an element, from its name and whether metadata is wanted. -/
def categoryOf (withMetadata : Bool) (name : String) : Category :=
  categoryOfFolded withMetadata (Text.foldName name)

/-- Where the category of a name in lower case comes from. -/
theorem categoryOfFolded_cases (withMetadata : Bool) (name : String) :
    (withMetadata = true ∧ categoryOfFolded withMetadata name = .head) ∨
      (name ∈ droppedNames ∧ categoryOfFolded withMetadata name = .dropped) ∨
      (name ∈ semanticNames ∧ categoryOfFolded withMetadata name = .semantic name) ∨
      (name, categoryOfFolded withMetadata name) ∈ namedCategories ∨
      categoryOfFolded withMetadata name = .unhandled := by
  unfold categoryOfFolded
  -- The tables are asked one after another, so each case is the first that answers.
  by_cases hhead : name = "head"
  · rw [if_pos hhead]
    cases withMetadata with
    | false => exact Or.inr (Or.inr (Or.inr (Or.inr rfl)))
    | true => exact Or.inl ⟨rfl, rfl⟩
  · rw [if_neg hhead]
    by_cases hdropped : droppedNames.contains name = true
    · rw [if_pos hdropped]
      exact Or.inr (Or.inl ⟨List.contains_iff_mem.mp hdropped, rfl⟩)
    · rw [if_neg hdropped]
      by_cases hsemantic : semanticNames.contains name = true
      · rw [if_pos hsemantic]
        exact Or.inr (Or.inr (Or.inl ⟨List.contains_iff_mem.mp hsemantic, rfl⟩))
      · rw [if_neg hsemantic]
        cases hfound : Entries.lookup? namedCategories name with
        | none => exact Or.inr (Or.inr (Or.inr (Or.inr rfl)))
        | some category =>
            have hmem := Entries.mem_of_lookup? namedCategories name category hfound
            exact Or.inr (Or.inr (Or.inr (Or.inl hmem)))

/-- The name of a category. -/
def Category.label : Category → String
  | .heading _ => "heading"
  | .paragraph => "paragraph"
  | .link => "link"
  | .image => "image"
  | .video => "video"
  | .list => "list"
  | .lineBreak => "line_break"
  | .table => "table"
  | .head => "head"
  | .dropped => "dropped"
  | .emphasis style => style.name
  | .code => "code"
  | .quote => "blockquote"
  | .semantic _ => "semantic"
  | .unhandled => "unhandled"

end Dom

end PageDistill
