import PageDistill.Proofs.MainContent.Found

/-!
# Which Element Is Chosen

The search for the main content chooses the best element, and the first of them in document
order where several are equally good.

The choice is made in three steps: the candidates are taken out of the page, ranked, and gone
through from the top. What is to be chosen is said here without any of them. A member of a list is
the first of the most points if those in front of it have less and those behind it have no more;
at most one place of a list is of that kind (`FirstOfMost.unique`). Leaving out the elements with
few points does not change that place, and the ranking puts its member on top: the order is by
falling points, and members with equal points keep their order. Going down from there, no
candidate has more points than the best so far, so the question whether it lies inside another one
is never decisive.

## Main definitions

* `FirstOfMost`: The first member of a list among those with the most points.
* `Chosen`: What is to be chosen below an element.
* `MainOf`: What is to be found on a page.

## Theorems

* `firstOfMost_of_ranking`: The top of the ranking is the first of the most points.
* `settle_eq_of_le`: Going down a ranking keeps the best so far.
* `detect_chosen`: Detection chooses the first of the most points.
* `findMain_mainOf`: The search finds what the page marks, and else what detection chooses.
* `findMain_best`: Both of these for every page.
-/

namespace PageDistill

namespace MainContent

/-- The first member of a list among those with the most points. -/
def FirstOfMost {α : Type} (points : α → Nat) (l : List α) (a : α) : Prop :=
  ∃ front back, l = front ++ a :: back ∧ (∀ b ∈ front, points b < points a) ∧
    ∀ b ∈ back, points b ≤ points a

namespace FirstOfMost

variable {α : Type} {points : α → Nat} {l : List α} {a : α}

theorem mem (h : FirstOfMost points l a) : a ∈ l := by
  rcases h with ⟨front, back, rfl, _, _⟩
  exact List.mem_append_right front List.mem_cons_self

theorem le (h : FirstOfMost points l a) (b : α) (hb : b ∈ l) : points b ≤ points a := by
  rcases h with ⟨front, back, rfl, hfront, hback⟩
  rcases List.mem_append.mp hb with hmem | hmem
  · exact Nat.le_of_lt (hfront b hmem)
  · rcases List.mem_cons.mp hmem with rfl | hmem
    · exact Nat.le_refl _
    · exact hback b hmem

/-- A member with less points may stand in front. -/
theorem cons (h : FirstOfMost points l a) (b : α) (hb : points b < points a) :
    FirstOfMost points (b :: l) a := by
  rcases h with ⟨front, back, rfl, hfront, hback⟩
  exact ⟨b :: front, back, rfl, List.forall_mem_cons.mpr ⟨hb, hfront⟩, hback⟩

theorem head (hle : ∀ b ∈ l, points b ≤ points a) : FirstOfMost points (a :: l) a :=
  ⟨[], l, rfl, fun _ hb => absurd hb List.not_mem_nil, hle⟩

/-- A list has at most one such member. -/
theorem unique {b : α} (ha : FirstOfMost points l a) (hb : FirstOfMost points l b) : a = b := by
  rcases ha with ⟨front, back, hl, hfront, hback⟩
  rcases hb with ⟨front', back', hl', hfront', hback'⟩
  rw [hl] at hl'
  -- Either one of the two stands in front of the other, or they stand at the same place.
  rcases List.append_eq_append_iff.mp hl' with ⟨between, rfl, htail⟩ | ⟨between, rfl, htail⟩
  · cases between with
    | nil => exact (List.cons.inj htail).1
    | cons c rest =>
        rw [List.cons_append] at htail
        rcases List.cons.inj htail with ⟨rfl, rfl⟩
        have hlt := hfront' a (List.mem_append_right front List.mem_cons_self)
        have hle := hback b (List.mem_append_right rest List.mem_cons_self)
        omega
  · cases between with
    | nil => exact (List.cons.inj htail).1.symm
    | cons c rest =>
        rw [List.cons_append] at htail
        rcases List.cons.inj htail with ⟨rfl, rfl⟩
        have hlt := hfront b (List.mem_append_right front' List.mem_cons_self)
        have hle := hback' a (List.mem_append_right rest List.mem_cons_self)
        omega

/-- Members with too few points may be left out. -/
theorem of_filter (enough : Nat) (h : FirstOfMost points (l.filter fun b => enough ≤ points b) a) :
    FirstOfMost points l a := by
  have henough : enough ≤ points a := by
    have hkept := (List.mem_filter.mp h.mem).2
    simpa only [decide_eq_true_eq] using hkept
  induction l with
  | nil => exact h
  | cons b rest ih =>
      by_cases hb : enough ≤ points b
      · rw [List.filter_cons_of_pos (by simpa only [decide_eq_true_eq] using hb)] at h
        -- Either this one is the first of most, or it is behind this one.
        rcases h with ⟨front, back, hl, hfront, hback⟩
        cases front with
        | nil =>
            rcases List.cons.inj hl with ⟨rfl, hrest⟩
            refine head fun c hc => ?_
            by_cases hkept : enough ≤ points c
            · refine hback c ?_
              rw [← hrest, List.mem_filter]
              exact ⟨hc, by simpa only [decide_eq_true_eq] using hkept⟩
            · omega
        | cons c front =>
            rcases List.cons.inj hl with ⟨rfl, hrest⟩
            rcases List.forall_mem_cons.mp hfront with ⟨hlt, hfront⟩
            exact (ih ⟨front, back, hrest, hfront, hback⟩).cons b hlt
      · rw [List.filter_cons_of_neg (by simpa only [decide_eq_true_eq] using hb)] at h
        exact (ih h).cons b (by omega)

end FirstOfMost

/-- The top of the ranking is the first of the most points among the candidates. -/
theorem firstOfMost_of_ranking (cs : List Candidate) (first : Candidate) (rest : List Candidate)
    (h : ranking cs = first :: rest) : FirstOfMost Candidate.points cs first := by
  have htrans : ∀ a b c : Candidate, decide (b.points ≤ a.points) = true →
      decide (c.points ≤ b.points) = true → decide (c.points ≤ a.points) = true := by
    intro a b c hab hbc
    simp only [decide_eq_true_eq] at hab hbc ⊢
    omega
  have htotal : ∀ a b : Candidate,
      (decide (b.points ≤ a.points) || decide (a.points ≤ b.points)) = true := by
    intro a b
    simp only [Bool.or_eq_true, decide_eq_true_eq]
    omega
  induction cs generalizing rest with
  | nil =>
      rw [ranking, List.mergeSort_nil] at h
      exact absurd h (by simp)
  | cons c cs ih =>
      -- Ranking one more candidate puts it behind those with more points and before all others.
      rcases List.mergeSort_cons htrans htotal c cs with ⟨above, others, hall, hcs, habove⟩
      rw [ranking, hall] at h
      cases above with
      | nil =>
          rcases List.cons.inj h with ⟨rfl, rfl⟩
          have hsorted := List.pairwise_mergeSort htrans htotal (c :: cs)
          rw [hall, List.nil_append, List.pairwise_cons] at hsorted
          refine FirstOfMost.head fun b hb => ?_
          have hmem : b ∈ others := by
            rw [List.nil_append] at hcs
            rw [← hcs]
            exact List.mem_mergeSort.mpr hb
          simpa only [decide_eq_true_eq] using hsorted.1 b hmem
      | cons top above =>
          rcases List.cons.inj h with ⟨rfl, _⟩
          have hless := habove top List.mem_cons_self
          simp only [Bool.not_eq_true', decide_eq_false_iff_not] at hless
          exact (ih (above ++ others) hcs).cons c (by omega)

/-- Where no candidate has more points than the best so far, that is the choice, and nothing is
    noted on the way. -/
theorem settle_eq_of_le (ranked : List Candidate) (best : Candidate) (rest : List Candidate)
    (h : ∀ c ∈ rest, c.points ≤ best.points) : settle ranked best rest = pure best := by
  induction rest with
  | nil => rfl
  | cons c rest ih =>
      rcases List.forall_mem_cons.mp h with ⟨hc, hrest⟩
      rw [settle, if_neg, ih hrest]
      intro hbetter
      omega

/-- The loop over the ranking keeps its top. -/
theorem settle_ranking (cs : List Candidate) (first : Candidate) (rest : List Candidate)
    (h : ranking cs = first :: rest) : settle (first :: rest) first rest = pure first := by
  refine settle_eq_of_le _ first rest fun c hc => ?_
  refine (firstOfMost_of_ranking cs first rest h).le c ?_
  have hmem : c ∈ ranking cs := by
    rw [h]
    exact List.mem_cons_of_mem first hc
  exact List.mem_mergeSort.mp hmem

/-- What is to be chosen below an element: the first of the greatest score if that is enough for a
    candidate, and the element itself if no score is. -/
inductive Chosen (root : Placed) : Placed → Prop
  | best (p : Placed) (hfirst : FirstOfMost (fun q => score q.element) (below root) p)
      (henough : candidatePoints ≤ score p.element) : Chosen root p
  | kept (hfew : ∀ q ∈ below root, score q.element < candidatePoints) : Chosen root root

/-- There is one element to be chosen at most. -/
theorem Chosen.unique {root p q : Placed} (hp : Chosen root p) (hq : Chosen root q) : p = q := by
  cases hp with
  | best _ hfirst henough =>
      cases hq with
      | best _ hfirst' _ => exact hfirst.unique hfirst'
      | kept hfew =>
          have hlt := hfew p hfirst.mem
          omega
  | kept hfew =>
      cases hq with
      | best _ hfirst henough =>
          have hlt := hfew q hfirst.mem
          omega
      | kept _ => rfl

/-- The candidates are the elements with enough points, with these points. -/
theorem mem_candidates (ps : List Placed) (c : Candidate) :
    c ∈ candidates ps ↔
      c.placed ∈ ps ∧ c.points = score c.placed.element ∧ candidatePoints ≤ c.points := by
  rw [candidates, List.mem_filter, List.mem_map]
  constructor
  · rintro ⟨⟨p, hp, rfl⟩, henough⟩
    exact ⟨hp, rfl, by simpa only [decide_eq_true_eq] using henough⟩
  · rintro ⟨hp, hpoints, henough⟩
    refine ⟨⟨c.placed, hp, ?_⟩, by simpa only [decide_eq_true_eq] using henough⟩
    rw [← hpoints]

theorem firstOfMost_of_candidates (ps : List Placed) (c : Candidate)
    (h : FirstOfMost Candidate.points (candidates ps) c) :
    FirstOfMost (fun q => score q.element) ps c.placed := by
  have hscored := ((mem_candidates ps c).mp h.mem).2.1
  rcases FirstOfMost.of_filter candidatePoints h with ⟨front, back, hps, hfront, hback⟩
  -- Before the filter each element stands with its score.
  rcases List.map_eq_append_iff.mp hps with ⟨front', tail, rfl, rfl, htail⟩
  rcases List.map_eq_cons_iff.mp htail with ⟨p, back', rfl, rfl, rfl⟩
  refine ⟨front', back', rfl, fun q hq => ?_, fun q hq => ?_⟩
  · exact hfront _ (List.mem_map.mpr ⟨q, hq, rfl⟩)
  · exact hback _ (List.mem_map.mpr ⟨q, hq, rfl⟩)

/-- Detection does not fail, and it chooses the first element of the greatest score if that is
    enough for a candidate, and the root otherwise. -/
theorem detect_chosen (root : Placed) : (detect root).Ends (Chosen root) fun _ => False := by
  unfold detect
  refine (Traced.Ends.each_all (fun _ => True) _ _ fun _ _ =>
    Traced.Ends.debug _).bind fun _ _ => ?_
  simp only
  cases hranked : ranking (candidates (below root)) with
  | nil =>
      refine (Traced.Ends.debug _).bind fun _ _ => Traced.Ends.pure (Chosen.kept fun q hq => ?_)
      by_cases hq' : candidatePoints ≤ score q.element
      · -- An element with enough points would be ranked.
        have hmem : (⟨q, score q.element⟩ : Candidate) ∈ ranking (candidates (below root)) :=
          List.mem_mergeSort.mpr ((mem_candidates _ _).mpr ⟨hq, rfl, hq'⟩)
        rw [hranked] at hmem
        exact absurd hmem List.not_mem_nil
      · omega
  | cons first rest =>
      -- The loop keeps the first of the ranking, which is the first with most points.
      have hfirst := firstOfMost_of_ranking _ first rest hranked
      simp only [settle_ranking _ first rest hranked]
      refine (Traced.Ends.pure (rfl : first = first)).bind fun best hbest => ?_
      refine (Traced.Ends.debug _).bind fun _ _ => Traced.Ends.pure ?_
      rw [← hbest]
      rcases (mem_candidates _ first).mp hfirst.mem with ⟨_, hpoints, henough⟩
      exact Chosen.best _ (firstOfMost_of_candidates _ first hfirst) (by omega)

/-- What is to be found on a page: the first element that says itself that it holds the main
    content; without one, what is to be chosen in the first body; without a body, the first root
    element or else the first element at all; and the page where it has no elements. -/
inductive MainOf (d : Dom.Document) : Placed → Prop
  | landmark (p : Placed)
      (hfirst : (placedElements d).find? (fun q => isLandmark q.element) = some p) : MainOf d p
  | body (body p : Placed) (hnone : ∀ q ∈ placedElements d, isLandmark q.element = false)
      (hbody : (placedElements d).find? (fun q => q.element.name == "body") = some body)
      (hchosen : Chosen body p) : MainOf d p
  | root (p : Placed) (hnone : ∀ q ∈ placedElements d, isLandmark q.element = false)
      (hbodyless : ∀ q ∈ placedElements d, q.element.name ≠ "body")
      (hroot : (placedElements d).find? (fun q => q.element.name == "html") = some p) : MainOf d p
  | first (p : Placed) (hnone : ∀ q ∈ placedElements d, isLandmark q.element = false)
      (hbare : ∀ q ∈ placedElements d, q.element.name ≠ "body" ∧ q.element.name ≠ "html")
      (hfirst : (placedElements d).head? = some p) : MainOf d p
  | page (hempty : placedElements d = []) : MainOf d (wholePage d)

/-- Where no element of a name is found, no element has the name. -/
theorem name_ne_of_firstNamed?_eq_none (d : Dom.Document) (name : String)
    (h : firstNamed? d name = none) : ∀ q ∈ placedElements d, q.element.name ≠ name := by
  intro q hq
  have hne := List.find?_eq_none.mp h q hq
  simpa only [beq_iff_eq] using hne

/-- The search does not fail, and it finds what is to be found. -/
theorem findMain_mainOf (d : Dom.Document) : (findMain d).Ends (MainOf d) fun _ => False := by
  unfold findMain
  cases hlandmark : landmark? d with
  | some p =>
      exact (Traced.Ends.debug _).bind fun _ _ =>
        Traced.Ends.pure (MainOf.landmark p hlandmark)
  | none =>
      -- Without a landmark the body is looked through, and without a body the root is taken.
      have hnone : ∀ q ∈ placedElements d, isLandmark q.element = false := by
        intro q hq
        exact Bool.eq_false_iff.mpr (List.find?_eq_none.mp hlandmark q hq)
      simp only
      cases hbody : firstNamed? d "body" with
      | some body =>
          exact (detect_chosen body).mono fun p hp => MainOf.body body p hnone hbody hp
      | none =>
          have hbodyless := name_ne_of_firstNamed?_eq_none d "body" hbody
          simp only
          refine (Traced.Ends.debug _).bind fun _ _ => ?_
          cases hhtml : firstNamed? d "html" with
          | some html => exact Traced.Ends.pure (MainOf.root html hnone hbodyless hhtml)
          | none =>
              have hrootless := name_ne_of_firstNamed?_eq_none d "html" hhtml
              refine Traced.Ends.pure ?_
              cases hplaced : placedElements d with
              | nil => exact MainOf.page hplaced
              | cons p rest =>
                  refine MainOf.first p hnone (fun q hq => ⟨hbodyless q hq, hrootless q hq⟩) ?_
                  rw [hplaced]
                  rfl

/-- Detection chooses the first element in document order, the root included, among those of the
    greatest score if that is at least twenty, and the root otherwise; the loop over the ranked
    candidates never takes another one than the first of them. So the search finds the landmark of
    a page, or what detection chooses in the body, or the root, or the page. -/
theorem findMain_best :
    (∀ root : Placed, (detect root).Ends (Chosen root) (fun _ => False) ∧
      (ranking (candidates (below root)) = [] ∨
        ∃ first rest, ranking (candidates (below root)) = first :: rest ∧
          settle (first :: rest) first rest = pure first)) ∧
      ∀ d : Dom.Document, (findMain d).Ends (MainOf d) fun _ => False := by
  refine ⟨fun root => ⟨detect_chosen root, ?_⟩, findMain_mainOf⟩
  cases hranked : ranking (candidates (below root)) with
  | nil => exact Or.inl rfl
  | cons first rest => exact Or.inr ⟨first, rest, rfl, settle_ranking _ first rest hranked⟩

end MainContent

end PageDistill
