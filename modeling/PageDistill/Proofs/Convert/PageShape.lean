import PageDistill.Convert
import PageDistill.Proofs.Dom.Descendants
import PageDistill.Proofs.Dom.Equality

/-!
# Pages With One Head

The shape of an ordinary page, and what is found in it.

An ordinary page has one element at its top, an `html` element, and among the children of that
one is the only head of the page. Elements are compared with a head without regard to case,
since this is how lowering compares them. `Headed` names the parts: the root, the head, and
the children of the root before and after the head.

On such a page the searches for a root and a head find these two. Everything below the root
other than the head has no head in it, so an element that is found below the root always
leaves the head behind.

## Main definitions

* `Headed`: A page with one root and one head.
* `Framed`: One that has nothing else but a body.

## Theorems

* `Headed.pageRoot_eq`, `Headed.filledHead?_eq`: The root and the head are found.
* `Headed.headless`: Below the root no element has a head in it.
* `Headed.leavesHead_eq`: Which elements leave the head behind.
* `Framed.firstElement?_body`: The body is found.
-/

namespace PageDistill

open Dom (Element Document)

/-- A page with one `html` element at its top and one head, which is a child of that. -/
structure Headed (d : Document) (root head : Element) (front back : List Element) : Prop where
  single : d.root.children = [root]
  root_name : root.name = "html"
  parts : root.children = front ++ head :: back
  head_name : head.name = "head"
  beside : ∀ c ∈ front ++ back, Text.foldName c.name ≠ "head"
  below : ∀ c ∈ root.children, ∀ x ∈ c.descendants, Text.foldName x.name ≠ "head"

instance (d : Document) (root head : Element) (front back : List Element) :
    Decidable (Headed d root head front back) :=
  decidable_of_iff
    (d.root.children = [root] ∧ root.name = "html" ∧ root.children = front ++ head :: back ∧
      head.name = "head" ∧ (∀ c ∈ front ++ back, Text.foldName c.name ≠ "head") ∧
      ∀ c ∈ root.children, ∀ x ∈ c.descendants, Text.foldName x.name ≠ "head")
    ⟨fun ⟨single, root_name, parts, head_name, beside, below⟩ =>
      ⟨single, root_name, parts, head_name, beside, below⟩,
      fun h => ⟨h.single, h.root_name, h.parts, h.head_name, h.beside, h.below⟩⟩

namespace Headed

variable {d : Document} {root head : Element} {front back : List Element}
variable (h : Headed d root head front back)

include h

theorem descendants_eq : d.root.descendants = root :: root.descendants := by
  rw [Element.descendants_eq_flatMap, h.single, List.flatMap_singleton]

theorem head_mem : head ∈ root.children := by
  rw [h.parts]
  exact List.mem_append_right _ List.mem_cons_self

/-- The head stands under the root, so text in it is ordinary. -/
theorem head_role : head.outerRole = .ordinary := by
  have hroot : root ∈ d.root.children := by
    rw [h.single]
    exact List.mem_cons_self
  rw [((Element.mem_children_iff root head).mp h.head_mem).2.2, Element.innerRole,
    ((Element.mem_children_iff d.root root).mp hroot).2.2, h.root_name]
  rfl

/-- The page is nested deeper by two than what is below the root. -/
theorem heightOf_le {x : Element} (hx : x ∈ root.descendants) :
    Dom.heightOf x.nodes + 2 ≤ Dom.heightOf d.nodes := by
  have hroot : root ∈ d.root.children := by
    rw [h.single]
    exact List.mem_cons_self
  have hinner := Element.heightOf_lt root x hx
  have houter := Element.heightOf_lt_of_mem_children hroot
  change _ < Dom.heightOf d.nodes at houter
  omega

/-- Below the root no element has a head in it. -/
theorem headless {x : Element} (hx : x ∈ root.descendants) :
    ∀ y ∈ x.descendants, Text.foldName y.name ≠ "head" := by
  intro y hy
  rw [Element.descendants_eq_flatMap, List.mem_flatMap] at hx
  rcases hx with ⟨c, hc, hx⟩
  rcases List.mem_cons.mp hx with rfl | hx
  · exact h.below x hc y hy
  · exact h.below c hc y (Element.descendants_subset c x hx hy)

/-- The root is the first element of its name. -/
theorem firstElement?_html : firstElement? d "html" = some root := by
  rw [firstElement?, Element.first?, h.descendants_eq, List.find?_cons, h.root_name]
  rfl

theorem pageRoot_eq : pageRoot d = root := by
  rw [pageRoot, h.firstElement?_html]
  rfl

/-- The elements before the head have other names, and so has all that is in them. -/
theorem firstElement?_head : firstElement? d "head" = some head := by
  -- No element in front of the head, nor below one of these, has its name.
  have hfront : (front.flatMap fun c => c :: c.descendants).find? (fun x => x.name == "head") =
      none := by
    rw [List.find?_eq_none]
    intro x hx hname
    rcases List.mem_flatMap.mp hx with ⟨c, hc, hx⟩
    have hfold : Text.foldName x.name = "head" := by
      rw [beq_iff_eq.mp hname]
      decide
    rcases List.mem_cons.mp hx with rfl | hx
    · exact h.beside x (List.mem_append_left _ hc) hfold
    · refine h.below c ?_ x hx hfold
      rw [h.parts]
      exact List.mem_append_left _ hc
  rw [firstElement?, Element.first?, h.descendants_eq, List.find?_cons, h.root_name,
    Element.descendants_eq_flatMap, h.parts, List.flatMap_append, List.find?_append, hfront]
  simp [h.head_name]

/-- The head is found if it has contents. -/
theorem filledHead?_eq (hne : head.nodes ≠ []) : filledHead? d = some head := by
  rw [filledHead?, h.firstElement?_head]
  simp [hne]

/-- A head without contents counts as none. -/
theorem filledHead?_empty (hnil : head.nodes = []) : filledHead? d = none := by
  rw [filledHead?, h.firstElement?_head]
  simp [hnil]

/-- The root holds the head, so it does not leave it behind. -/
theorem leavesHead_root : leavesHead root = false := by
  unfold leavesHead
  rw [h.root_name]
  simp

/-- An element below the root that is no `html` element leaves the head behind. -/
theorem leavesHead_eq {x : Element} (hx : x ∈ root.descendants) (hname : x.name ≠ "html") :
    leavesHead x = true := by
  have hnone : x.first? "head" = none := by
    rw [Element.first?, List.find?_eq_none]
    intro y hy hhead
    refine h.headless hx y hy ?_
    rw [beq_iff_eq.mp hhead]
    decide
  unfold leavesHead
  rw [hnone]
  simp [hname]

end Headed

/-- A page whose root has nothing but a head with contents and a body, apart from blank text
    and strings that are no text, in either order. There is no other head, and no body in the
    head. -/
structure Framed (d : Document) (root head body : Element) : Prop where
  single : d.root.children = [root]
  root_name : root.name = "html"
  parts : root.children = [head, body] ∨ root.children = [body, head]
  blank : ∀ content, .text content ∈ root.nodes → Text.isAllBlank content.toList = true
  head_name : head.name = "head"
  filled : head.nodes ≠ []
  body_name : body.name = "body"
  one_head : ∀ c ∈ [head, body], ∀ x ∈ c.descendants, Text.foldName x.name ≠ "head"
  one_body : ∀ x ∈ head.descendants, x.name ≠ "body"

namespace Framed

variable {d : Document} {root head body : Element} (h : Framed d root head body)

include h

theorem mem_children_iff (c : Element) : c ∈ root.children ↔ c ∈ [head, body] := by
  rcases h.parts with hparts | hparts
  · rw [hparts]
  · rw [hparts]
    simp [or_comm]

theorem headed : ∃ front back, Headed d root head front back := by
  have hbelow : ∀ c ∈ root.children, ∀ x ∈ c.descendants, Text.foldName x.name ≠ "head" :=
    fun c hc => h.one_head c ((h.mem_children_iff c).mp hc)
  have hbody : ∀ c ∈ [body], Text.foldName c.name ≠ "head" := by
    intro c hc
    rw [List.mem_singleton.mp hc, h.body_name]
    decide
  rcases h.parts with hparts | hparts
  · exact ⟨[], [body], h.single, h.root_name, hparts, h.head_name, hbody, hbelow⟩
  · exact ⟨[body], [], h.single, h.root_name, hparts, h.head_name, hbody, hbelow⟩

/-- The body is found, since the head has none in it. -/
theorem firstElement?_body : firstElement? d "body" = some body := by
  rcases h.headed with ⟨front, back, hheaded⟩
  have hhead : head.descendants.find? (fun x => x.name == "body") = none := by
    rw [List.find?_eq_none]
    intro x hx hname
    exact h.one_body x hx (beq_iff_eq.mp hname)
  rw [firstElement?, Element.first?, hheaded.descendants_eq, List.find?_cons, h.root_name,
    Element.descendants_eq_flatMap]
  rcases h.parts with hparts | hparts
  · rw [hparts]
    simp [h.head_name, h.body_name, hhead]
  · rw [hparts]
    simp [h.body_name]

end Framed

end PageDistill
