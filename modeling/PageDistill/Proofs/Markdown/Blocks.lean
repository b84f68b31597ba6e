import PageDistill.Proofs.Markdown.Unhooked
import PageDistill.Proofs.Text.Trimmed

/-!
# Blocks Keep to Their Lines

What is written for a block begins and ends inside a line.

A block may have lines of its own, and anything may stand in the middle of it, line ends included.
At its two ends there is always something that the rule for its kind puts there, or a trimmed text.
So the line ends around a block come from how it is put after what is there, and from nothing else.

## Main definitions

* `Solid`: A text that begins and ends inside a line.

## Theorems

* `Solid.append`, `Solid.joinWith`: Solid texts on both sides of anything.
* `Node.solid_block`: What is written for a block is solid, if anything is.
-/

namespace PageDistill

namespace Markdown

open Text (TrimmedBy)

/-- A text that begins and ends inside a line. -/
structure Solid (s : List Char) : Prop where
  filled : s ≠ []
  ends : TrimmedBy (fun c => c == '\n') s

namespace Solid

variable {s t : List Char}

theorem of_not_mem (hne : s ≠ []) (h : '\n' ∉ s) : Solid s := by
  have hmem : ∀ c ∈ s, (c == '\n') = false := fun c hc =>
    beq_eq_false_iff_ne.mpr fun heq => h (heq ▸ hc)
  exact ⟨hne, fun c hc => hmem c (List.mem_of_head? hc),
    fun c hc => hmem c (List.mem_of_getLast? hc)⟩

/-- A line end is blank, so a trimmed text has none at its ends. -/
theorem of_trimmed (hne : s ≠ []) (h : Text.Trimmed s) : Solid s := by
  refine ⟨hne, TrimmedBy.mono h fun c hc => ?_⟩
  rw [beq_iff_eq.mp hc]
  decide

/-- What begins and ends solid is solid, whatever is between. -/
theorem append (hs : Solid s) (ht : Solid t) (between : List Char) : Solid (s ++ between ++ t) :=
  ⟨List.append_ne_nil_of_right_ne_nil _ ht.filled,
    hs.ends.append ht.ends between hs.filled ht.filled⟩

theorem joinWith (sep : List Char) {pieces : List (List Char)} (hne : pieces ≠ [])
    (h : ∀ piece ∈ pieces, Solid piece) : Solid (Text.joinWith sep pieces) := by
  have hjoin := Text.trimmedBy_joinWith (fun c => c == '\n') sep pieces fun piece hpiece =>
    ⟨(h piece hpiece).filled, (h piece hpiece).ends⟩
  exact ⟨hjoin.2 hne, hjoin.1⟩

theorem getLast?_ne (h : Solid s) : s.getLast? ≠ some '\n' := fun hlast =>
  absurd (h.ends.2 '\n' hlast) (by decide)

end Solid

/-- A heading is solid, since its text is trimmed. -/
theorem solid_headingLine (level : Int) (inner : List Char) :
    Solid (headingLine level (Text.trim inner)) := by
  have hmarks : Solid (List.replicate level.toNat '#' ++ [' ']) := by
    refine .of_not_mem (List.append_ne_nil_of_right_ne_nil _ (List.cons_ne_nil _ _)) fun h => ?_
    rcases List.mem_append.mp h with h | h
    · exact absurd (List.eq_of_mem_replicate h) (by decide)
    · exact absurd h (by decide)
  rw [headingLine, ← List.singleton_append, ← List.append_assoc]
  by_cases hnil : Text.trim inner = []
  · rw [hnil, List.append_nil]
    exact hmarks
  · have h := hmarks.append (.of_trimmed hnil (Text.trimmed_trim inner)) []
    rwa [List.append_nil] at h

theorem solid_imageText (src : String) (alt : Option String) (hne : imageText src alt ≠ []) :
    Solid (imageText src alt) := by
  unfold imageText at hne ⊢
  simp only at hne ⊢
  split
  · rename_i h
    rw [if_pos h] at hne
    exact absurd rfl hne
  · rw [List.append_assoc "![".toList, List.append_assoc "![".toList]
    exact (Solid.of_not_mem (by decide) (by decide)).append (.of_not_mem (by decide) (by decide)) _

theorem solid_videoText (src : Dom.AttrValue) (poster : Option String) (controls : Option Bool) :
    Solid (videoText src poster controls) := by
  -- Each line begins with a label and ends with a bracket, whatever the address between holds.
  have hlink : ∀ label url : List Char, label ≠ [] → '\n' ∉ label → Solid (label ++ url ++ [')']) :=
    fun label url hne hlabel =>
      (Solid.of_not_mem hne hlabel).append (.of_not_mem (by decide) (by decide)) url
  unfold videoText
  refine .joinWith _ (List.cons_ne_nil _ _) fun line hline => ?_
  rcases List.mem_cons.mp hline with rfl | hline
  · exact hlink _ _ (by decide) (by decide)
  · rcases List.mem_append.mp hline with hline | hline
    · cases poster with
      | none => exact absurd hline List.not_mem_nil
      | some url =>
          simp only at hline
          split at hline
          · exact absurd hline List.not_mem_nil
          · rw [List.mem_singleton.mp hline]
            exact hlink _ _ (by decide) (by decide)
    · match controls with
      | none => exact absurd hline List.not_mem_nil
      | some true =>
          rw [List.mem_singleton.mp hline]
          exact .of_not_mem (by decide) (by decide)
      | some false =>
          rw [List.mem_singleton.mp hline]
          exact .of_not_mem (by decide) (by decide)

/-- An item ends with its text, which is trimmed. -/
theorem solid_itemLine (indent : Int) (ordered : Bool) (number : Nat) (inner : List Char) :
    Solid (itemLine indent ordered number (Text.trim inner)) := by
  -- The marker is on one line and is not empty, and the item after it is trimmed.
  have hmarker : Solid (List.replicate (2 * indent.toNat) ' ' ++
      if ordered then Number.naturalText number ++ ['.'] else ['-']) := by
    refine .of_not_mem ?_ fun h => ?_
    · cases ordered <;> simp
    · rcases List.mem_append.mp h with h | h
      · exact absurd (List.eq_of_mem_replicate h) (by decide)
      · cases ordered with
        | false => exact absurd (List.mem_singleton.mp h) (by decide)
        | true =>
            rcases List.mem_append.mp h with h | h
            · exact Number.not_mem_naturalText number (by decide) h
            · exact absurd h (by decide)
  unfold itemLine
  simp only
  split
  · exact hmarker
  · rename_i hne
    have hinner := Solid.of_trimmed (mt List.isEmpty_iff.mpr hne) (Text.trimmed_trim inner)
    have h := hmarker.append hinner [' ']
    rwa [List.append_assoc, List.singleton_append] at h

theorem solid_of_mem_itemLines (indent : Int) (ordered : Bool) (number : Nat)
    (items : List (List Node)) : ∀ line ∈ itemLines indent ordered number items, Solid line := by
  induction items generalizing number with
  | nil => exact nofun
  | cons item items ih =>
      intro line hline
      rw [itemLines] at hline
      rcases List.mem_cons.mp hline with rfl | hline
      · exact solid_itemLine indent ordered number _
      · exact ih (number + 1) line hline

theorem solid_of_mem_rowLines (indent : Int) (width : Int) (rows : List (List Cell)) :
    ∀ line ∈ rowLines indent width rows, Solid line := by
  induction rows with
  | nil => exact nofun
  | cons row rows ih =>
      intro line hline
      rw [rowLines] at hline
      rcases List.mem_cons.mp hline with rfl | hline
      · have hpipe : Solid ['|'] := .of_not_mem (by decide) (by decide)
        exact hpipe.append hpipe _
      · exact ih line hline

/-- Every line of a quote begins with a mark. -/
theorem solid_quoteText (inner : List Char) : Solid (quoteText inner) := by
  unfold quoteText
  split
  · exact .of_not_mem (by decide) (by decide)
  · refine .joinWith _ (by simpa using Text.splitOn_ne_nil '\n' inner) fun line hline => ?_
    rcases List.mem_map.mp hline with ⟨rest, _, rfl⟩
    -- The mark is not blank, so the line is trimmed at its front and has something in it.
    have hfront : ∀ c ∈ ('>' :: ' ' :: rest).head?, Text.isBlank c = false := fun c hc =>
      Option.some.inj hc ▸ by decide
    rw [← Text.trim_eq_trimEnd hfront]
    refine .of_trimmed (fun hnil => ?_) (Text.trimmed_trim _)
    rw [Text.trim_eq_nil_iff, Text.isAllBlank, List.all_cons] at hnil
    exact absurd hnil Bool.false_ne_true

theorem solid_semanticText (element : String) (inner : List Char)
    (hne : semanticText element (Text.trim inner) ≠ []) :
    Solid (semanticText element (Text.trim inner)) := by
  -- Where a text is framed, the frame begins and ends it.
  have hframe : ∀ first last : List Char, first ≠ [] → last ≠ [] → '\n' ∉ first → '\n' ∉ last →
      ∀ between, Solid (first ++ between ++ last) := fun first last hne hne' hfirst hlast between =>
    (Solid.of_not_mem hne hfirst).append (.of_not_mem hne' hlast) between
  by_cases hempty : (Text.trim inner).isEmpty = true
  · rw [semanticText, if_pos hempty] at hne
    exact absurd rfl hne
  · rw [semanticText, if_neg hempty]
    split
    · exact .of_trimmed (mt List.isEmpty_iff.mpr hempty) (Text.trimmed_trim inner)
    · split
      · have h := hframe "---".toList "---".toList (by decide) (by decide) (by decide) (by decide)
          ("\n\n".toList ++ Text.trim inner ++ "\n\n".toList)
        simpa using h
      · have h := hframe "<!-- ".toList " -->".toList (by decide) (by decide) (by decide)
          (by decide) (element.toList ++ " -->\n".toList ++ Text.trim inner ++
            "\n<!-- /".toList ++ element.toList)
        simpa using h

/-- A code block is closed by its fences. -/
theorem solid_codeBlock (content : String) (language : Option String) :
    Solid (codeBlock content language) := by
  have hfence : Solid codeFence := .of_not_mem (by decide) (by decide)
  have h := hfence.append hfence ((language.getD "").toList ++ '\n' :: (content.toList ++ ['\n']))
  rw [codeBlock]
  simpa using h

/-- What is written for a block begins and ends inside a line, if anything is. -/
theorem Node.solid_block (indent : Int) (node : Node) (hblock : node.isBlock = true)
    (hne : node.block indent ≠ []) : Solid (node.block indent) := by
  cases node with
  | heading level content => exact solid_headingLine level _
  | image src alt => exact solid_imageText src alt hne
  | video src poster controls => exact solid_videoText src poster controls
  | list ordered items =>
      -- A list or a table is solid since each of its lines is.
      refine .joinWith _ (fun hnil => hne ?_) (solid_of_mem_itemLines indent ordered 1 items)
      rw [Node.block, hnil]
      rfl
  | table rows colIds =>
      rw [Node.block] at hne ⊢
      split at hne
      · exact absurd rfl hne
      · rename_i hwidth
        rw [if_neg hwidth]
        refine .joinWith _ (fun hnil => hne ?_) (solid_of_mem_rowLines indent _ rows)
        rw [hnil]
        rfl
  | code content language inline =>
      cases inline with
      | true => exact absurd hblock Bool.false_ne_true
      | false => exact solid_codeBlock content language
  | quote content => exact solid_quoteText _
  | semantic element content => exact solid_semanticText element _ hne
  | _ => exact absurd hblock Bool.false_ne_true

end Markdown

end PageDistill
