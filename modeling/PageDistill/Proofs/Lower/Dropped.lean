import PageDistill.Proofs.Convert.Finishing
import PageDistill.Proofs.Lower.Agreement

/-!
# What Is Left Out Is Not Seen

The contents of elements that are left out have no part in what a page is lowered to.

This holds of contents that are out of sight, and `OutOfSight` says which these are. It is a
statement about two runs over two pages that are the same apart from such contents: whatever
they are replaced by, the outcome stays the same, be it a tree or an error. Where the
contents are in sight the statement fails. In a list a script is lowered as if it were an
item, so its source becomes text of the tree (`lower_list_shows_script`).

When the nesting may exceed the limit, the elements around the contents may become all that
they say, whatever their rules. So out of sight means more then, and the theorem takes as a
parameter whether that may happen.

## Theorems

* `lower_hides_dropped`: Contents that are out of sight have no part in the tree.
* `convertElement_hides_dropped`: Nor in the Markdown and the references made of it.
* `lower_list_shows_script`: Directly in a list a script is seen.
-/

namespace PageDistill

open Dom (AllSimilar Mates)

/-- Contents that are out of sight have no part in what an element is lowered to. Two pages
    that are the same apart from such contents are lowered with the same outcome. -/
theorem lower_hides_dropped (o : Options) (hhooks : o.WithoutElementHooks)
    (hmetadata : o.metadata.wanted = false) (deep : Bool) (indent : Int) (e : Dom.Element)
    (nodes : List Dom.Node)
    (hsimilar : AllSimilar Eq (OutOfSight deep) [e.name] e.innerRole e.nodes nodes)
    (hdepth : deep = false →
      o.maxDepth.Allows (Dom.heightOf e.nodes) ∧ o.maxDepth.Allows (Dom.heightOf nodes)) :
    (lower o indent { e with nodes := nodes }).result = (lower o indent e).result := by
  have halike : o.LowerAlike o := ⟨hhooks, hhooks, rfl, rfl⟩
  have hmates : Mates Unobserved (OutOfSight deep) ([] ++ [e.name]) e { e with nodes := nodes } :=
    ⟨rfl, fun _ _ => rfl, rfl, hsimilar.mono (fun _ _ heq _ _ => by rw [heq]) fun _ _ _ _ h => h⟩
  -- Either the levels are enough for both pages, or the limit names the same levels for both.
  have hlevels : Dom.heightOf e.nodes < levelsWithin o.maxDepth e ∧
      Dom.heightOf nodes < levelsWithin o.maxDepth { e with nodes := nodes } ∨
      deep = true ∧
        levelsWithin o.maxDepth { e with nodes := nodes } = levelsWithin o.maxDepth e := by
    cases deep with
    | false =>
        exact Or.inl ⟨heightOf_lt_levelsWithin o.maxDepth e (hdepth rfl).1,
          heightOf_lt_levelsWithin o.maxDepth { e with nodes := nodes } (hdepth rfl).2⟩
    | true =>
        unfold levelsWithin
        cases o.maxDepth.deepest? with
        | none => exact Or.inl ⟨Nat.lt_succ_self _, Nat.lt_succ_self _⟩
        | some depth => exact Or.inr ⟨rfl, rfl⟩
  have htwins : Twins o o deep (levelsWithin o.maxDepth e)
      (levelsWithin o.maxDepth { e with nodes := nodes }) [] e { e with nodes := nodes } := by
    refine ⟨hmates, hlevels, fun hwanted => ?_⟩
    rw [hmetadata, or_self] at hwanted
    exact absurd hwanted Bool.false_ne_true
  have hagree := agreeBelow_lowerLevels halike _ _ indent indent [] e _ htwins
  unfold lower
  cases hlimit : o.maxDepth with
  | unordered kind => rfl
  | whole n =>
      rw [hlimit] at hagree
      exact hagree.symm
  | fraction x =>
      rw [hlimit] at hagree
      exact hagree.symm

/-- Contents that are out of sight have no part in the tree of an element, nor in its Markdown
    and its references. -/
theorem convertElement_hides_dropped (o : Options) (hhooks : o.WithoutElementHooks)
    (hmetadata : o.metadata.wanted = false) (deep : Bool) (e : Dom.Element) (nodes : List Dom.Node)
    (hsimilar : AllSimilar Eq (OutOfSight deep) [e.name] e.innerRole e.nodes nodes)
    (hdepth : deep = false →
      o.maxDepth.Allows (Dom.heightOf e.nodes) ∧ o.maxDepth.Allows (Dom.heightOf nodes)) :
    (∀ indent, (lower o indent { e with nodes := nodes }).result = (lower o indent e).result) ∧
      (convertElement o { e with nodes := nodes }).markdown.result =
        (convertElement o e).markdown.result ∧
      (convertElement o { e with nodes := nodes }).urlMap = (convertElement o e).urlMap := by
  have hlower := fun indent =>
    lower_hides_dropped o hhooks hmetadata deep indent e nodes hsimilar hdepth
  exact ⟨hlower, convertElement_congr o (hlower 0)⟩

/-- A script in a paragraph, a style sheet in a heading, and a page without scripts in a cell: none
    of them is seen, whatever it holds. -/
theorem convertElement_hides_dropped_mixed :
    let plain (name : String) (nodes : List Dom.Node) : Dom.Node := .element ⟨name, []⟩ nodes
    let page (source rules : String) (fallback : List Dom.Node) : List Dom.Node :=
      [plain "p" [.text "One", plain "script" [.text source]],
        plain "h1" [plain "style" [.text rules], .text "Two"],
        plain "table" [plain "tr" [plain "td" [.text "three", plain "noscript" fallback]]]]
    let e : Dom.Element := ⟨"body", .ordinary, ⟨"div", []⟩,
      page "alert(1)" "p { }" [plain "p" [.text "four"]]⟩
    let nodes := page "alert(2)" "" [.text "five"]
    AllSimilar Eq (OutOfSight false) [e.name] e.innerRole e.nodes nodes ∧
      Options.default.maxDepth.Allows (Dom.heightOf e.nodes) ∧
      Options.default.maxDepth.Allows (Dom.heightOf nodes) ∧
      (lower Options.default 0 { e with nodes := nodes }).result =
        (lower Options.default 0 e).result ∧
      (convertElement Options.default { e with nodes := nodes }).markdown.result =
        (convertElement Options.default e).markdown.result ∧
      (convertElement Options.default e).markdown.result =
        .ok "One\n\n# Two\n\n| three |" := by
  intro plain page e nodes
  -- The pages differ in a script, a style sheet and a fallback, at three different depths.
  have hsimilar : AllSimilar Eq (OutOfSight false) [e.name] e.innerRole e.nodes nodes :=
    .cons (.element rfl rfl (.cons (.text _ _ _) (.cons (.hidden rfl rfl (by decide) (by decide))
        (.nil _ _))))
      (.cons (.element rfl rfl (.cons (.hidden rfl rfl (by decide) (by decide))
        (.cons (.text _ _ _) (.nil _ _))))
      (.cons (.element rfl rfl (.cons (.element rfl rfl (.cons (.element rfl rfl
        (.cons (.text _ _ _) (.cons (.hidden rfl rfl (by decide) (by decide)) (.nil _ _))))
        (.nil _ _))) (.nil _ _)))
      (.nil _ _)))
  have hboth : Options.default.maxDepth.Allows (Dom.heightOf e.nodes) ∧
      Options.default.maxDepth.Allows (Dom.heightOf nodes) := by decide
  have hall := convertElement_hides_dropped Options.default ⟨rfl, rfl⟩ rfl false e nodes hsimilar
    fun _ => hboth
  exact ⟨hsimilar, hboth.1, hboth.2, hall.1 0, hall.2.1, by decide +kernel⟩

/-- Directly in a list a script is seen: its source becomes the text of an item, and another
    source another text. -/
theorem lower_list_shows_script :
    let page (source : String) : Dom.Element := ⟨"body", .ordinary, ⟨"div", []⟩,
      [.element ⟨"ul", []⟩ [.element ⟨"script", []⟩ [.text source]]]⟩
    (lower Options.default 0 (page "alert(1)")).result =
        .ok [.list false [[.text "alert(1)"]]] ∧
      (lower Options.default 0 (page " ")).result = .ok [.list false [[]]] :=
  ⟨rfl, rfl⟩

end PageDistill
