import PageDistill.MainContent.Detect
import PageDistill.Proofs.Dom.Descendants
import PageDistill.Proofs.Outcomes

/-!
# Finding the Main Content

The search for the main content always finds an element of the page.

It does not fail, and what it finds is one of the elements of the page if there is any. Both
are needed by whoever goes on with the element that was found, whatever the way in which it
was found. When candidates are compared, the best so far is always one of the ranking, and a
ranking has the candidates of the page in another order.

## Theorems

* `settle_ends`: Comparing candidates ends with one of them.
* `findMain_found`, `findMain_ends`: What is found is an element of the page.
-/

namespace PageDistill

namespace MainContent

/-- Comparing candidates ends with one of them. -/
theorem settle_ends (ranked : List Candidate) (best : Candidate) (rest : List Candidate) :
    (settle ranked best rest).Ends (· ∈ best :: rest) fun _ => False := by
  induction rest generalizing best with
  | nil => exact Traced.Ends.pure List.mem_cons_self
  | cons c rest ih =>
      unfold settle
      by_cases hbetter : (!liesInside ranked c) = true ∧ best.points < c.points
      · rw [if_pos hbetter]
        refine (Traced.Ends.debug _).bind fun _ _ => (ih c).mono fun result hmem => ?_
        exact List.mem_cons_of_mem best hmem
      · rw [if_neg hbetter]
        refine (ih best).mono fun result hmem => ?_
        rcases List.mem_cons.mp hmem with rfl | hmem
        · exact List.mem_cons_self
        · exact List.mem_cons_of_mem best (List.mem_cons_of_mem c hmem)

theorem mem_placedElements (d : Dom.Document) (p : Placed) (h : p ∈ placedElements d) :
    p.element ∈ d.root.descendants := by
  rcases List.mem_map.mp h with ⟨⟨path, element⟩, hplaced, rfl⟩
  rw [Dom.Element.descendants, ← Dom.placedOf_map_snd _ _ [] 0]
  exact List.mem_map.mpr ⟨(path, element), hplaced, rfl⟩

/-- An element and what is below it. -/
theorem mem_below (root p : Placed) (h : p ∈ below root) :
    p.element = root.element ∨ p.element ∈ root.element.descendants := by
  rcases List.mem_cons.mp h with rfl | hmem
  · exact Or.inl rfl
  · rcases List.mem_map.mp hmem with ⟨⟨path, element⟩, hplaced, rfl⟩
    rw [Dom.Element.descendants, ← Dom.placedOf_map_snd _ _ root.path 0]
    exact Or.inr (List.mem_map.mpr ⟨(path, element), hplaced, rfl⟩)

theorem detect_ends (root : Placed) :
    (detect root).Ends
      (fun p => p.element = root.element ∨ p.element ∈ root.element.descendants)
      fun _ => False := by
  unfold detect
  refine (Traced.Ends.each_all (fun _ => True) _ _ fun _ _ =>
    Traced.Ends.debug _).bind fun _ _ => ?_
  simp only
  cases hranked : ranking (candidates (below root)) with
  | nil =>
      exact (Traced.Ends.debug _).bind fun _ _ => Traced.Ends.pure (Or.inl rfl)
  | cons first rest =>
      refine (settle_ends (first :: rest) first rest).bind fun best hbest => ?_
      refine (Traced.Ends.debug _).bind fun _ _ => Traced.Ends.pure ?_
      -- A ranking has the candidates in another order.
      rw [← hranked, ranking, List.mem_mergeSort, candidates, List.mem_filter] at hbest
      rcases List.mem_map.mp hbest.1 with ⟨p, hmem, rfl⟩
      exact mem_below root p hmem

/-- The search does not fail, and what it finds is an element of the page; a page without elements
    is found itself. -/
theorem findMain_found (d : Dom.Document) :
    (findMain d).Ends
      (fun p => p.element ∈ d.root.descendants ∨
        (p.element = d.root ∧ d.root.descendants = [])) fun _ => False := by
  have hfirst : ∀ name p, firstNamed? d name = some p → p.element ∈ d.root.descendants :=
    fun name p h => mem_placedElements d p (List.mem_of_find?_eq_some h)
  unfold findMain
  cases hlandmark : landmark? d with
  | some p =>
      refine (Traced.Ends.debug _).bind fun _ _ => Traced.Ends.pure (Or.inl ?_)
      exact mem_placedElements d p (List.mem_of_find?_eq_some hlandmark)
  | none =>
      simp only
      cases hbody : firstNamed? d "body" with
      | some body =>
          have hmem := hfirst "body" body hbody
          refine (detect_ends body).mono fun p hp => Or.inl ?_
          rcases hp with hp | hp
          · rw [hp]
            exact hmem
          · exact Dom.Element.descendants_subset d.root body.element hmem hp
      | none =>
          simp only
          refine (Traced.Ends.debug _).bind fun _ _ => ?_
          cases hhtml : firstNamed? d "html" with
          | some html => exact Traced.Ends.pure (Or.inl (hfirst "html" html hhtml))
          | none =>
              refine Traced.Ends.pure ?_
              cases hplaced : placedElements d with
              | nil =>
                  -- Without any element there is none below the root either.
                  have hmap : (placedElements d).map Placed.element = d.root.descendants := by
                    rw [placedElements, List.map_map, Dom.Element.descendants,
                      ← Dom.placedOf_map_snd _ _ [] 0]
                    rfl
                  rw [hplaced] at hmap
                  exact Or.inr ⟨rfl, hmap.symm⟩
              | cons first rest =>
                  refine Or.inl (mem_placedElements d first ?_)
                  rw [hplaced]
                  exact List.mem_cons_self

/-- So what is found is an element of the page, if there is any. -/
theorem findMain_ends (d : Dom.Document) (hne : d.root.descendants ≠ []) :
    (findMain d).Ends (fun p => p.element ∈ d.root.descendants) fun _ => False := by
  refine (findMain_found d).mono fun p hp => ?_
  rcases hp with hmem | ⟨_, hnone⟩
  · exact hmem
  · exact absurd hnone hne

end MainContent

end PageDistill
