import PageDistill.Proofs.Dom.Places
import PageDistill.Proofs.MainContent.Choice

/-!
# Marking the Main Content

Marking the element that was found makes the search find the mark.

What was found is either the first landmark of the page, or the page has no landmark at all. In
both cases no landmark stands before it in document order. The mark is put in the place of the
element, so what is listed before it are the elements that were listed before: some of them, those
around the place, hold other children now, but whether an element is a landmark is a question about
its tag. So the mark, being a landmark, is the first one. That it has to be the first is why the
paths of the elements matter: an element with the same looks as the one that was found may well
stand before it, but not at the same path.

An element that has the name of the mark is left as it is. Here nothing is to be shown, since the
page does not change.

## Theorems

* `mem_placedElements_of_mainOf`: What is found on a page stands on it, with no landmark before it.
* `landmark?_of_replacedAt`: A landmark in the place of what was found is the first one.
* `wrapMain_stable`: The mark is found, it is made once, and it can be taken away again.
-/

namespace PageDistill

namespace MainContent

/-- Whether an element is a landmark is a question about its tag. -/
theorem isLandmark_congr {e e' : Dom.Element} (h : e'.tag = e.tag) :
    isLandmark e' = isLandmark e := by
  unfold isLandmark roleText Dom.Element.name
  rw [h]

theorem mem_placedElements_iff (d : Dom.Document) (p : Placed) :
    p ∈ placedElements d ↔ (p.path, p.element) ∈ d.root.placed [] := by
  rw [placedElements, List.mem_map]
  constructor
  · rintro ⟨⟨path, element⟩, hmem, rfl⟩
    exact hmem
  · intro hmem
    exact ⟨(p.path, p.element), hmem, rfl⟩

/-- What is below an element of a page is an element of the page. -/
theorem below_subset (d : Dom.Document) (root : Placed) (hroot : root ∈ placedElements d) :
    below root ⊆ placedElements d := by
  intro p hp
  rcases List.mem_cons.mp hp with rfl | hbelow
  · exact hroot
  · rcases List.mem_map.mp hbelow with ⟨⟨path, element⟩, hplaced, rfl⟩
    rw [mem_placedElements_iff] at hroot ⊢
    exact Dom.placed_subset_of_mem_placedOf _ _ [] 0 d.root.nodes _ hroot hplaced

theorem Chosen.mem_below {root p : Placed} (h : Chosen root p) : p ∈ below root := by
  cases h with
  | best _ hfirst _ => exact hfirst.mem
  | kept _ => exact List.mem_cons_self

/-- What is found on a page is one of its elements unless it is the page itself, and it is the first
    landmark if there is one. -/
theorem mem_placedElements_of_mainOf {d : Dom.Document} {p : Placed} (h : MainOf d p)
    (helement : p.path ≠ []) :
    p ∈ placedElements d ∧
      ∀ q ∈ landmark? d, q = p := by
  -- Where nothing is a landmark, the question is void.
  have hnone : (∀ q ∈ placedElements d, isLandmark q.element = false) →
      ∀ q ∈ landmark? d, q = p := by
    intro hnone q hq
    have hmem := List.mem_of_find?_eq_some hq
    have hlandmark := List.find?_some hq
    rw [hnone q hmem] at hlandmark
    exact absurd hlandmark Bool.false_ne_true
  cases h with
  | landmark _ hfirst =>
      refine ⟨List.mem_of_find?_eq_some hfirst, fun q hq => ?_⟩
      rw [landmark?, hfirst, Option.mem_some] at hq
      exact hq.symm
  | body body _ hno hbody hchosen =>
      have hmem := List.mem_of_find?_eq_some hbody
      exact ⟨below_subset d body hmem hchosen.mem_below, hnone hno⟩
  | root _ hno _ hroot => exact ⟨List.mem_of_find?_eq_some hroot, hnone hno⟩
  | first _ hno _ hfirst => exact ⟨List.mem_of_mem_head? hfirst, hnone hno⟩
  | page _ => exact absurd rfl helement

/-- The first landmark is the first one that is listed. -/
theorem landmark?_eq (d : Dom.Document) :
    landmark? d =
      ((d.root.placed []).find? fun p => isLandmark p.2).map fun p => ⟨p.1, p.2⟩ := by
  rw [landmark?, placedElements, List.find?_map]
  rfl

theorem landmark?_of_placed {d : Dom.Document} {front back : List (Dom.Path × Dom.Element)}
    {p : Dom.Path × Dom.Element} (h : d.root.placed [] = front ++ p :: back)
    (hfront : ∀ q ∈ front, isLandmark q.2 = false) (hp : isLandmark p.2 = true) :
    landmark? d = some ⟨p.1, p.2⟩ := by
  have hnone : front.find? (fun q => isLandmark q.2) = none := by
    rw [List.find?_eq_none]
    intro q hq
    rw [hfront q hq]
    exact Bool.false_ne_true
  have hsome : (p :: back).find? (fun q => isLandmark q.2) = some p :=
    List.find?_cons_of_pos hp
  rw [landmark?_eq, h, List.find?_append, hnone, hsome]
  rfl

/-- A landmark in a first part of the listing would make the first one stand there. -/
theorem isLandmark_of_front {d : Dom.Document} {front rest : List (Dom.Path × Dom.Element)}
    {path : Dom.Path} (h : d.root.placed [] = front ++ rest)
    (hfirst : ∀ q ∈ landmark? d, q.path = path) (hpaths : ∀ q ∈ front, q.1 ≠ path) :
    ∀ q ∈ front, isLandmark q.2 = false := by
  cases hfind : front.find? fun q => isLandmark q.2 with
  | none =>
      intro q hq
      exact Bool.eq_false_iff.mpr (List.find?_eq_none.mp hfind q hq)
  | some q =>
      have hq : landmark? d = some ⟨q.1, q.2⟩ := by
        rw [landmark?_eq, h, List.find?_append, hfind]
        rfl
      exact absurd (hfirst _ hq) (hpaths q (List.mem_of_find?_eq_some hfind))

/-- A landmark that is put in the place of what was found is the first landmark then, and it is what
    the path leads to. -/
theorem landmark?_of_replacedAt {d d' : Dom.Document} {p : Placed} {tag : Dom.Tag}
    {nodes : List Dom.Node} (hfirst : ∀ q ∈ landmark? d, q = p)
    (hreplaced : Dom.ReplacedAt (.element p.element.tag p.element.nodes) (.element tag nodes) p.path
      d.nodes d'.nodes)
    (hlandmark : ∀ e : Dom.Element, e.tag = tag → isLandmark e = true) :
    ∃ w : Dom.Element, w.tag = tag ∧ w.nodes = nodes ∧ d'.element? p.path = some w ∧
      landmark? d' = some ⟨p.path, w⟩ := by
  rcases hreplaced.placedOf_split d.root.name d.root.innerRole [] with
    ⟨parent, role, front, front', back, hold, hnew, htags, hpaths⟩
  rw [List.nil_append] at hold hnew hpaths
  have hplaced : d'.root.placed [] =
      front' ++ (p.path, ⟨parent, role, tag, nodes⟩) ::
        (Dom.placedOf tag.name (role.within tag.name) p.path 0 nodes ++ back) := hnew
  have hfront := isLandmark_of_front hold (fun q hq => by rw [hfirst q hq]) hpaths
  -- What stands in front keeps its tags, and no landmark was among them.
  have hfront' : ∀ q ∈ front', isLandmark q.2 = false := by
    intro q hq
    have hmem : q.2.tag ∈ front.map fun q => q.2.tag := by
      rw [← htags]
      exact List.mem_map.mpr ⟨q, hq, rfl⟩
    rcases List.mem_map.mp hmem with ⟨r, hr, hrtag⟩
    rw [isLandmark_congr hrtag.symm]
    exact hfront r hr
  refine ⟨⟨parent, role, tag, nodes⟩, rfl, rfl, ?_,
    landmark?_of_placed hplaced hfront' (hlandmark _ rfl)⟩
  refine d'.element?_of_mem_placed (p.path, ⟨parent, role, tag, nodes⟩) ?_
  rw [hplaced]
  exact List.mem_append_right front' List.mem_cons_self

/-- The search notes the landmark that it finds. -/
theorem findMain_of_landmark {d : Dom.Document} {p : Placed} (h : landmark? d = some p) :
    (findMain d).result = .ok p := by
  unfold findMain
  rw [h]
  rfl

theorem isLandmark_marker (e : Dom.Element) (h : e.tag = markerTag) : isLandmark e = true := by
  rw [isLandmark, Dom.Element.name, h]
  rfl

/-- Marking what was found makes it found again. If it is an element, it can be marked; then the
    search finds what stands at its path, and marking that again changes nothing.

    An element of the name `main` is its own mark. Any other one has the mark in its place, which
    holds the element and nothing else; unwrapping the mark gives the page back, and the page says
    what it said before. -/
theorem wrapMain_stable (d : Dom.Document) (p : Placed) (hfound : (findMain d).result = .ok p)
    (helement : p.path ≠ []) :
    ∃ d' w, (wrapMain p d).result = .ok d' ∧ d'.element? p.path = some w ∧
      (findMain d').result = .ok ⟨p.path, w⟩ ∧ wrapMain ⟨p.path, w⟩ d' = pure d' ∧
      (p.element.name = "main" → d' = d ∧ w = p.element) ∧
      (p.element.name ≠ "main" →
        w.tag = markerTag ∧ w.nodes = [.element p.element.tag p.element.nodes] ∧
        Dom.ReplacedAt (.element p.element.tag p.element.nodes) (.element w.tag w.nodes) p.path
          d.nodes d'.nodes ∧
        d'.unwrapAt p.path = d ∧ d'.root.text = d.root.text) := by
  have hmain : MainOf d p := by
    have hends := findMain_mainOf d
    unfold Traced.Ends at hends
    rw [hfound] at hends
    exact hends
  rcases mem_placedElements_of_mainOf hmain helement with ⟨hmem, hfirst⟩
  rw [mem_placedElements_iff] at hmem
  by_cases hname : p.element.name = "main"
  · have hwrap : wrapMain p d = pure d := by rw [wrapMain, if_pos hname]
    refine ⟨d, p.element, ?_, d.element?_of_mem_placed _ hmem, hfound, hwrap,
      fun _ => ⟨rfl, rfl⟩, fun hne => absurd hname hne⟩
    rw [hwrap]
    rfl
  -- The marker takes the place of what was found, so the search ends there again.
  · rcases d.exists_replacedAt_of_mem_placed
      (.element markerTag [.element p.element.tag p.element.nodes]) _ hmem with ⟨d', hreplaced⟩
    rcases landmark?_of_replacedAt hfirst hreplaced isLandmark_marker with
      ⟨w, htag, hnodes, hw, hlandmark⟩
    refine ⟨d', w, ?_, hw, findMain_of_landmark hlandmark, ?_,
      fun heq => absurd heq hname, fun _ => ⟨htag, hnodes, ?_, ?_, ?_⟩⟩
    · rw [wrapMain, if_neg hname, if_neg helement]
      refine congrArg Except.ok (congrArg Dom.Document.mk ?_)
      exact hreplaced.modifyAt_eq (fun node => .element markerTag [node]) rfl
    · have hmarked : w.name = "main" := by
        rw [Dom.Element.name, htag]
        rfl
      rw [wrapMain, if_pos hmarked]
    · rw [htag, hnodes]
      exact hreplaced
    · exact congrArg Dom.Document.mk hreplaced.unwrapAt_eq
    · -- The mark gives no role to the text in it.
      have hstrings : Dom.stringsOf d'.root.innerRole d'.root.nodes =
          Dom.stringsOf d.root.innerRole d.root.nodes := by
        refine hreplaced.stringsOf_eq (fun role => ?_) _
        rw [Dom.Node.strings, Dom.stringsOf, Dom.stringsOf, List.append_nil]
        rfl
      unfold Dom.Element.text Dom.Element.strings
      rw [hstrings]
      rfl

/-- The role of an inner element is the landmark; the same element without the role stands before
    it. -/
theorem wrapMain_stable_role :
    let plain : Dom.Node := .element ⟨"div", []⟩ [.text "a"]
    let found : Dom.Element := ⟨"div", .ordinary, ⟨"div", [("role", .text "main")]⟩, [.text "b"]⟩
    let body : Dom.Node := .element ⟨"body", []⟩
      [plain, .element ⟨"div", []⟩ [plain, .element found.tag found.nodes, .text "c"]]
    let d : Dom.Document := ⟨[.element ⟨"html", []⟩ [body]]⟩
    (findMain d).result = .ok ⟨[0, 0, 1, 1], found⟩ ∧
      ∃ d' w, (wrapMain ⟨[0, 0, 1, 1], found⟩ d).result = .ok d' ∧
        (findMain d').result = .ok ⟨[0, 0, 1, 1], w⟩ ∧ w.tag = markerTag ∧
        d'.unwrapAt [0, 0, 1, 1] = d := by
  intro plain found body d
  have hlandmark : landmark? d = some ⟨[0, 0, 1, 1], found⟩ := by
    simp only [d, body, plain, found]
    rfl
  have hfound := findMain_of_landmark hlandmark
  rcases wrapMain_stable d _ hfound (by simp) with
    ⟨d', w, hwrap, _, hagain, _, _, hmarked⟩
  have hname : found.name ≠ "main" := by decide
  rcases hmarked hname with ⟨htag, _, _, hunwrap, _⟩
  exact ⟨hfound, d', w, hwrap, hagain, htag, hunwrap⟩

end MainContent

end PageDistill
