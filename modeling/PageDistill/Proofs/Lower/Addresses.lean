import PageDistill.Proofs.Lower.Rules
import PageDistill.Proofs.Url.Compaction

/-!
# Where Addresses Come From

Every address in a lowered tree is the address of an element of the page.

Links, images and videos take an address from the attributes of their own element, after the domain
is cut off or an inline image is replaced. No other rule makes an address, and every rule passes on
the addresses that stand in its parts. So whatever goes wrong with an address of the tree goes wrong
with an element that can be named.

## Main definitions

* `AddressOf`: The address that an element turns into.

## Theorems

* `Made.sources`: What a rule makes has the address of its element, and addresses from below.
* `lower_sources`: Where the addresses of a lowered tree come from.
-/

namespace PageDistill

open Markdown (Node Cell)
open Url (sources sourceOf?)

/-- The address that an element turns into, if it is a link, an image or a video. -/
inductive AddressOf (o : Options) (e : Dom.Element) : Dom.AttrValue → Prop where
  | link (hcategory : Dom.categoryOf o.metadata.wanted e.name = .link) :
      AddressOf o e (.text (linkAddress o e))
  | image (hcategory : Dom.categoryOf o.metadata.wanted e.name = .image) :
      AddressOf o e (.text (imageAddress o e))
  | video (hcategory : Dom.categoryOf o.metadata.wanted e.name = .video) :
      AddressOf o e (videoAddress e)

/-- A value is the address of one of some elements. -/
def AmongAddresses (o : Options) (elements : List Dom.Element) (source : Dom.AttrValue) : Prop :=
  ∃ d ∈ elements, AddressOf o d source

/-- What is an address of some elements is one of more elements. -/
theorem AmongAddresses.mono {o : Options} {elements more : List Dom.Element}
    {source : Dom.AttrValue} (hsub : elements ⊆ more) (h : AmongAddresses o elements source) :
    AmongAddresses o more source :=
  let ⟨d, hd, haddress⟩ := h
  ⟨d, hsub hd, haddress⟩

namespace Url

/-- The addresses of a node are its own and those of its children. -/
theorem mem_sources_singleton {node : Node} {source : Dom.AttrValue} (h : source ∈ sources [node]) :
    sourceOf? node = some source ∨ source ∈ sources node.children := by
  unfold sources at h
  rw [Markdown.walk_eq_flatMap, List.flatMap_singleton, Markdown.Node.walk_eq,
    List.filterMap_cons] at h
  cases hown : sourceOf? node with
  | none =>
      rw [hown] at h
      exact Or.inr h
  | some own =>
      rw [hown] at h
      rcases List.mem_cons.mp h with rfl | h
      · exact Or.inl rfl
      · exact Or.inr h

theorem sources_append (front back : List Node) :
    sources (front ++ back) = sources front ++ sources back := by
  unfold sources
  rw [Markdown.walk_append, List.filterMap_append]

/-- The addresses of nodes in parts are those of the parts. -/
theorem mem_sources_flatten {parts : List (List Node)} {source : Dom.AttrValue}
    (h : source ∈ sources parts.flatten) : ∃ part ∈ parts, source ∈ sources part := by
  induction parts with
  | nil => exact absurd h List.not_mem_nil
  | cons part parts ih =>
      rw [List.flatten_cons, sources_append] at h
      rcases List.mem_append.mp h with h | h
      · exact ⟨part, List.mem_cons_self, h⟩
      · rcases ih h with ⟨other, hother, hsource⟩
        exact ⟨other, List.mem_cons_of_mem part hother, hsource⟩

end Url

section

variable {o : Options} {made : Dom.Element → List Node → Prop}
  (hmade : ∀ e nodes, made e nodes →
    ∀ source ∈ sources nodes, AmongAddresses o e.descendants source)

include hmade

/-- The addresses in a table are those of its cells. -/
theorem tableOf_sources {e : Dom.Element} {rows : List (List Cell)}
    (h : List.Forall₂ (fun row cells => MadeCells o made 0 (cellElements row) cells)
      (e.named "tr") rows) :
    ∀ source ∈ Url.sources [tableOf o e rows], AmongAddresses o e.descendants source := by
  intro source hsource
  rcases tableOf_forall_cell
    (fun cell => ∀ source ∈ Url.sources cell.content, AmongAddresses o e.descendants source) h
    (List.forall_mem_nil _) (fun _ _ _ _ _ => List.forall_mem_nil _)
    fun d hd content hcontent _ source hsource =>
      (hmade d content hcontent source hsource).mono (Dom.Element.descendants_subset e d hd)
    with ⟨all, colIds, htable, hall⟩
  rw [htable] at hsource
  rcases Url.mem_sources_singleton hsource with hown | hbelow
  · exact absurd hown nofun
  · rw [Node.children, List.flatMap_def] at hbelow
    rcases Url.mem_sources_flatten hbelow with ⟨content, hcontent, hsource⟩
    rcases List.mem_map.mp hcontent with ⟨cell, hcell, rfl⟩
    rcases List.mem_flatten.mp hcell with ⟨row, hrow, hcell⟩
    exact hall row hrow cell hcell source hsource

/-- What a rule makes has the address of its element, and addresses of elements below it. -/
theorem Made.sources {e : Dom.Element} {nodes : List Node} (h : Made o made e nodes) :
    ∀ source ∈ Url.sources nodes, AmongAddresses o (e :: e.descendants) source := by
  have hnone : ∀ source ∈ Url.sources [], AmongAddresses o (e :: e.descendants) source :=
    fun _ hsource => absurd hsource List.not_mem_nil
  have hbelow : ∀ content, (∀ source ∈ Url.sources content, AmongAddresses o e.descendants source) →
      ∀ source ∈ Url.sources content, AmongAddresses o (e :: e.descendants) source :=
    fun content h source hsource => (h source hsource).mono (List.subset_cons_self e _)
  -- A node whose own address is that of the element, and what is below it.
  have hnode : ∀ node : Node, (∀ own, sourceOf? node = some own → AddressOf o e own) →
      (∀ source ∈ Url.sources node.children, AmongAddresses o e.descendants source) →
      ∀ source ∈ Url.sources [node], AmongAddresses o (e :: e.descendants) source := by
    intro node hown hchildren source hsource
    rcases Url.mem_sources_singleton hsource with h | h
    · exact ⟨e, List.mem_cons_self, hown source h⟩
    · exact hbelow _ hchildren source h
  have hempty : ∀ source ∈ Url.sources [], AmongAddresses o e.descendants source :=
    fun _ hsource => absurd hsource List.not_mem_nil
  cases h with
  | blank | dropped => exact hnone
  | heading level _ _ h => exact hnode _ nofun (hmade e _ h)
  | paragraph _ h =>
      rw [Url.sources_append]
      exact List.forall_mem_append.mpr ⟨hbelow _ (hmade e _ h), hnode _ nofun hempty⟩
  | label hcategory _ =>
      refine hnode _ (fun own hown => ?_) (fun _ hsource => absurd hsource List.not_mem_nil)
      rw [← Option.some.inj hown]
      exact .link hcategory
  | link hcategory h =>
      refine hnode _ (fun own hown => ?_) (hmade e _ h)
      rw [← Option.some.inj hown]
      exact .link hcategory
  | image hcategory =>
      refine hnode _ (fun own hown => ?_) hempty
      rw [← Option.some.inj hown]
      exact .image hcategory
  | video hcategory =>
      refine hnode _ (fun own hown => ?_) hempty
      rw [← Option.some.inj hown]
      exact .video hcategory
  | list _ h =>
      refine hnode _ nofun fun source hsource => ?_
      rcases Url.mem_sources_flatten hsource with ⟨item, hitem, hsource⟩
      rcases Traced.exists_of_mem_right h hitem with ⟨child, hchild, hlowered⟩
      exact (hmade child item hlowered source hsource).mono
        (Dom.Element.descendants_subset_of_mem_children hchild)
  | lineBreak => exact hnode _ nofun hempty
  | table _ h => exact hbelow _ (tableOf_sources hmade h)
  | head m => exact hnode _ nofun hempty
  | emphasis style _ _ h => exact hnode _ nofun (hmade e _ h)
  | code =>
      rcases lowerCode_cases e with heq | ⟨_, _, _, heq⟩
      · rw [heq]
        exact hnone
      · rw [heq]
        exact hnode _ nofun hempty
  | quote _ h => exact hnode _ nofun (hmade e _ h)
  | semantic element _ h => exact hnode _ nofun (hmade e _ h)
  | passed _ h => exact hbelow _ (hmade e _ h)

end

/-- Every address in a lowered tree is that of an element below the one that was lowered. -/
theorem lower_sources {o : Options} (ho : o.WithoutElementHooks) (indent : Int) (e : Dom.Element) :
    (lower o indent e).Ends
      (fun nodes => ∀ source ∈ sources nodes, AmongAddresses o e.descendants source)
      (LoweringFault o e.descendants) := by
  refine lower_made (fun _ e nodes =>
    ∀ source ∈ sources nodes, AmongAddresses o e.descendants source) ho ?_ ?_ indent e
  · intro e source hsource
    -- Flattening leaves only text, which has no address.
    rcases flattened_cases e with heq | ⟨_, heq⟩
    · rw [heq] at hsource
      exact absurd hsource List.not_mem_nil
    · rw [heq] at hsource
      exact absurd hsource List.not_mem_nil
  · intro levels e parts hparts source hsource
    rcases Url.mem_sources_flatten hsource with ⟨part, hpart, hsource⟩
    -- The address comes from one child, and so from that child or from an element below it.
    rcases Traced.exists_of_mem_right hparts hpart with ⟨child, hchild, hmade⟩
    cases hmade with
    | text content =>
        rcases textNodes_cases content with heq | ⟨_, heq⟩
        · rw [heq] at hsource
          exact absurd hsource List.not_mem_nil
        · rw [heq] at hsource
          exact absurd hsource List.not_mem_nil
    | special => exact absurd hsource List.not_mem_nil
    | element tag children h =>
        refine (h.sources (fun _ _ h => h) source hsource).mono ?_
        rw [Dom.Element.descendants_eq_flatMap e]
        intro d hd
        refine List.mem_flatMap.mpr ⟨_, ?_, hd⟩
        exact (Dom.Element.mem_children_iff e _).mpr ⟨hchild, rfl, rfl⟩

end PageDistill
