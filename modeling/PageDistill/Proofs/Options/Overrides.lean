import PageDistill.Markup.Html
import PageDistill.Proofs.Convert.Interchangeable

/-!
# Settings Checked and Settings Taken as They Are

The two ways of taking settings, for settings that fit.

Settings that are checked become new options, and settings that are taken as they are change options
that are there, here those of a caller who makes no choices. For settings that fit both ways lead to
options that are the same in everything but the wish for metadata. The check turns truth into a word
and nothing into falsehood, and without it the value stays what it was.

The wish is asked two questions only, whether there should be any metadata and whether there should
be more, and a value has the same answers before and after the check. So the options are
interchangeable, and no stage of a conversion can tell the two ways apart. For the same reason every
value that is not empty and is not the word for more asks for the usual amount. Hooks are shown the
wish, and must not look at it.

## Main definitions

* `OptionKind`, `optionKinds`: The kinds of options, and which option is of which kind.
* `OptionKind.Fits`, `WellTyped`: Values that fit, and settings with such values.
* `replaced`: A choice of some options after settings were taken as they are.

## Theorems

* `override_eq`: Every option is looked up among the settings.
* `ofSettings_eq`: Settings that fit are let pass by the check.
* `overrides_agree`: The two ways give the same answers.
-/

namespace PageDistill

/-- The kinds of options, by the values that they take. -/
inductive OptionKind where
  | domain
  | flag
  | references
  | reader
  | metadata
  | elementHook
  | nodeHook
  | limit

/-- The options with their kinds. -/
def optionKinds : List (String × OptionKind) :=
  [("website_domain", .domain), ("extract_main_content", .flag), ("refify_urls", .flag),
    ("url_map", .references), ("debug", .flag), ("dom_parser", .reader),
    ("enable_table_column_tracking", .flag), ("include_meta_data", .metadata),
    ("override_element_processing", .elementHook), ("process_unhandled_element", .elementHook),
    ("override_node_renderer", .nodeHook), ("render_custom_node", .nodeHook), ("max_depth", .limit)]

namespace OptionKind

/-- A value that fits a kind of options. A hook must not look at the wish for metadata. -/
inductive Fits : OptionKind → Setting → Prop where
  | noDomain : Fits .domain (.value .null)
  | domain (s : String) : Fits .domain (.value (.string s))
  | flag (b : Bool) : Fits .flag (.value (.bool b))
  | references (refs : ReferenceMap) :
      Fits .references (.value (.object (refs.map fun (key, token) => (key, .string token))))
  | namedReader (name : String) : Fits .reader (.value (.string name))
  | reader (read : Reader) : Fits .reader (.reader read)
  | noMetadata : Fits .metadata (.value .null)
  | metadata (b : Bool) : Fits .metadata (.value (.bool b))
  | basic : Fits .metadata (.value (.string "basic"))
  | extended : Fits .metadata (.value (.string "extended"))
  | noElementHook : Fits .elementHook (.value .null)
  | elementHook (hook : ElementHook) (h : ∀ choice, Overlooks (HookView.withMetadata choice) hook) :
      Fits .elementHook (.elementHook hook)
  | noNodeHook : Fits .nodeHook (.value .null)
  | nodeHook (hook : NodeHook) (h : ∀ choice, Overlooks (HookView.withMetadata choice) hook) :
      Fits .nodeHook (.nodeHook hook)
  | limit (n : Int) (h : 1 ≤ n) : Fits .limit (.value (.integer n))

end OptionKind

/-- Settings that name options, each at most once, with values that fit them. -/
structure WellTyped (settings : List (String × Setting)) : Prop where
  distinct : (settings.map Prod.fst).Nodup
  fits : ∀ setting ∈ settings,
    ∃ kind, Entries.lookup? optionKinds setting.1 = some kind ∧ kind.Fits setting.2

/-- A choice after settings were taken as they are: what the setting says, if there is one. -/
def replaced {α : Type} (settings : List (String × Setting)) (name : String)
    (value : Setting → α) (before : α) : α :=
  ((Entries.lookup? settings name).map value).getD before

/-- The wish for metadata of a setting that was checked. -/
def Setting.checkedMetadata (s : Setting) : MetadataChoice :=
  match choiceOf s with
  | .ok choice => choice
  | .error _ => .off

/-- Every option is looked up among settings that are taken as they are. -/
theorem override_eq (o : Options) {settings : List (String × Setting)}
    (hdistinct : (settings.map Prod.fst).Nodup) :
    o.override settings =
      { websiteDomain := replaced settings "website_domain" Setting.domain? o.websiteDomain
        extractMainContent :=
          replaced settings "extract_main_content" Setting.isOn o.extractMainContent
        shortenUrls := replaced settings "refify_urls" Setting.isOn o.shortenUrls
        urlMap := replaced settings "url_map" (fun s => s.references o.urlMap) o.urlMap
        debug := replaced settings "debug" Setting.isOn o.debug
        reader := replaced settings "dom_parser" Setting.pageReader o.reader
        trackTableColumns :=
          replaced settings "enable_table_column_tracking" Setting.isOn o.trackTableColumns
        metadata := replaced settings "include_meta_data" Setting.metadata o.metadata
        overrideElement :=
          replaced settings "override_element_processing" Setting.elementHook? o.overrideElement
        unhandledElement :=
          replaced settings "process_unhandled_element" Setting.elementHook? o.unhandledElement
        overrideNode :=
          replaced settings "override_node_renderer" Setting.nodeHook? o.overrideNode
        renderCustom := replaced settings "render_custom_node" Setting.nodeHook? o.renderCustom
        maxDepth := replaced settings "max_depth" Setting.limit o.maxDepth } := by
  induction settings generalizing o with
  | nil => rfl
  | cons setting settings ih =>
      obtain ⟨name, s⟩ := setting
      rw [List.map_cons, List.nodup_cons] at hdistinct
      have hnone : Entries.lookup? settings name = none :=
        Entries.lookup?_eq_none_of_not_mem settings name hdistinct.1
      change (o.set name s).override settings = _
      rw [ih (o.set name s) hdistinct.2]
      -- The setting is for one option at most, and no later one is for the same.
      unfold Options.set
      split <;> simp_all [replaced, Entries.lookup?]

section

variable {settings : List (String × Setting)} (h : WellTyped settings)

include h

theorem WellTyped.fits_of_lookup? {name : String} {kind : OptionKind} {s : Setting}
    (hkind : Entries.lookup? optionKinds name = some kind)
    (hs : Entries.lookup? settings name = some s) : kind.Fits s := by
  rcases h.fits _ (Entries.mem_of_lookup? settings name s hs) with ⟨other, hother, hfits⟩
  rw [← Option.some.inj (hother.symm.trans hkind)]
  exact hfits

/-- An option of settings that fit is let pass by its check, as whatever the check makes of a value
    that fits. -/
theorem WellTyped.taken_eq {α : Type} (name : String) {kind : OptionKind}
    (hkind : Entries.lookup? optionKinds name = some kind) {check : Setting → Checked α}
    {value : Setting → α} (hcheck : ∀ s, kind.Fits s → check s = .ok (value s)) (default : α) :
    taken settings name check default = (replaced settings name value default, []) := by
  unfold taken replaced
  cases hs : Entries.lookup? settings name with
  | none => rfl
  | some s =>
      simp only [hcheck s (h.fits_of_lookup? hkind hs)]
      rfl

theorem WellTyped.strangers_eq : strangers settings = [] := by
  have hnames : (settings.map Prod.fst).filter (fun name => !optionNames.contains name) = [] := by
    rw [List.filter_eq_nil_iff]
    intro name hname
    rcases List.mem_map.mp hname with ⟨setting, hmem, rfl⟩
    rcases h.fits setting hmem with ⟨kind, hkind, -⟩
    have hknown : optionKinds.map Prod.fst = optionNames := rfl
    have hname : setting.1 ∈ optionNames :=
      hknown ▸ List.mem_map_of_mem (Entries.mem_of_lookup? _ _ _ hkind)
    simp [hname]
  simp only [strangers, hnames, List.mergeSort_nil, List.map_nil]

omit h

theorem mapOf_of_fits (s : Setting) (h : OptionKind.references.Fits s) :
    mapOf s = .ok (s.references []) := by
  have hrefs : ∀ refs : ReferenceMap,
      referencesOf (refs.map fun (key, token) => (key, .string token)) = .ok refs := by
    intro refs
    induction refs with
    | nil => rfl
    | cons entry refs ih => simp only [List.map_cons, referencesOf, ih]
  cases h with
  | references refs => simp only [Setting.references, mapOf, hrefs]

include h

/-- Settings that fit are let pass by the check. What comes out of it is what they make of the
    choices of a caller who makes none, but for the wish for metadata. -/
theorem WellTyped.ofSettings_eq :
    Options.ofSettings settings =
      .ok ((Options.default.override settings).withMetadata
        (replaced settings "include_meta_data" Setting.checkedMetadata .off)) := by
  -- A setting of the right kind passes its check, and the value taken from it is the one that
  -- replaces the default.
  have hdomain : ∀ s, OptionKind.domain.Fits s → domainOf s = .ok s.domain? := by
    rintro s (_ | _) <;> rfl
  have hflag : ∀ s, OptionKind.flag.Fits s → flagOf s = .ok s.isOn := by
    intro s hs
    cases hs with
    | flag b => cases b <;> rfl
  have hreader : ∀ s, OptionKind.reader.Fits s → readerOf s = .ok s.pageReader := by
    rintro s (_ | _) <;> rfl
  have hmetadata : ∀ s, OptionKind.metadata.Fits s → choiceOf s = .ok s.checkedMetadata := by
    intro s hs
    cases hs with
    | metadata b => cases b <;> rfl
    | _ => rfl
  have helement : ∀ s, OptionKind.elementHook.Fits s → elementHookOf s = .ok s.elementHook? := by
    rintro s (_ | _) <;> rfl
  have hnode : ∀ s, OptionKind.nodeHook.Fits s → nodeHookOf s = .ok s.nodeHook? := by
    rintro s (_ | _) <;> rfl
  have hlimit : ∀ s, OptionKind.limit.Fits s → limitOf s = .ok s.limit := by
    intro s hs
    cases hs with
    | limit n hn => exact if_pos hn
  rw [override_eq _ h.distinct]
  unfold Options.ofSettings
  simp only [h.strangers_eq, h.taken_eq "website_domain" rfl hdomain,
    h.taken_eq "extract_main_content" rfl hflag, h.taken_eq "refify_urls" rfl hflag,
    h.taken_eq "url_map" rfl mapOf_of_fits, h.taken_eq "debug" rfl hflag,
    h.taken_eq "dom_parser" rfl hreader, h.taken_eq "enable_table_column_tracking" rfl hflag,
    h.taken_eq "include_meta_data" rfl hmetadata,
    h.taken_eq "override_element_processing" rfl helement,
    h.taken_eq "process_unhandled_element" rfl helement,
    h.taken_eq "override_node_renderer" rfl hnode, h.taken_eq "render_custom_node" rfl hnode,
    h.taken_eq "max_depth" rfl hlimit]
  rfl

/-- The wish for metadata has the same answers to both questions before and after the check. -/
theorem WellTyped.metadata_eq :
    let checked := replaced settings "include_meta_data" Setting.checkedMetadata .off
    let taken := (Options.default.override settings).metadata
    checked.wanted = taken.wanted ∧ checked.isExtended = taken.isExtended := by
  intro checked taken
  have htaken : taken = replaced settings "include_meta_data" Setting.metadata .off := by
    change (Options.default.override settings).metadata = _
    rw [override_eq _ h.distinct]
    rfl
  rw [htaken]
  simp only [checked, replaced]
  cases hs : Entries.lookup? settings "include_meta_data" with
  | none => exact ⟨rfl, rfl⟩
  | some s =>
      have hfits : OptionKind.metadata.Fits s := h.fits_of_lookup? rfl hs
      cases hfits with
      | metadata b => cases b <;> exact ⟨rfl, rfl⟩
      | _ => exact ⟨rfl, rfl⟩

/-- The hooks of settings that fit do not look at the wish for metadata. -/
theorem WellTyped.hooksOverlook (choice : MetadataChoice) :
    (Options.default.override settings).HooksOverlook (HookView.withMetadata choice) := by
  refine Options.HooksOverlook.override ⟨nofun, nofun, nofun, nofun⟩ fun s hmem => ?_
  rcases h.fits s hmem with ⟨kind, _, hfits⟩
  constructor
  · intro hook hhook
    rw [hhook] at hfits
    cases hfits with
    | elementHook _ hblind => exact hblind choice
  · intro hook hhook
    rw [hhook] at hfits
    cases hfits with
    | nodeHook _ hblind => exact hblind choice

end

/-- The answer of a conversion with changed options is that with the options they become. -/
theorem convertPageWith_markdown (readers : Readers) (o : Options)
    (settings : List (String × Setting)) (html : String) :
    (convertPageWith readers o settings html).markdown =
      (convertPage readers (o.override settings) html).markdown := by
  unfold convertPageWith withOverrides
  split
  · rename_i hempty
    rw [List.isEmpty_iff.mp hempty]
    rfl
  · rfl

/-- The two questions about metadata have the answers of the value that was given: whether it is
    empty, and whether it is the word for more. -/
theorem Setting.metadata_answers (s : Setting) :
    s.metadata.wanted = s.isOn ∧
      (s.metadata.isExtended = true ↔ s = .value (.string "extended")) := by
  cases s with
  | value v =>
      refine ⟨rfl, ?_⟩
      cases v with
      | string word =>
          change (word == "extended") = true ↔ _
          rw [beq_iff_eq, Setting.value.injEq, Json.Value.string.injEq]
      | _ => exact iff_of_false Bool.false_ne_true (by simp)
  | _ => exact ⟨rfl, iff_of_false Bool.false_ne_true nofun⟩

/-- The same options but for a wish for metadata that has the same answers to both questions. -/
structure Options.SameAnswers (o o' : Options) : Prop where
  alike : o' = o.withMetadata o'.metadata
  wanted : o'.metadata.wanted = o.metadata.wanted
  extended : o'.metadata.isExtended = o.metadata.isExtended

/-- One more setting keeps options the same but for such a wish. -/
theorem Options.SameAnswers.set {o o' : Options} (h : o.SameAnswers o') (name : String)
    (s : Setting) : (o.set name s).SameAnswers (o'.set name s) := by
  obtain ⟨halike, hwanted, hextended⟩ := h
  rw [halike]
  unfold Options.set
  split <;> first | exact ⟨rfl, hwanted, hextended⟩ | exact ⟨rfl, rfl, rfl⟩

/-- So do more settings. -/
theorem Options.SameAnswers.override {o o' : Options} (h : o.SameAnswers o')
    (settings : List (String × Setting)) :
    (o.override settings).SameAnswers (o'.override settings) := by
  unfold Options.override
  induction settings generalizing o o' with
  | nil => exact h
  | cons setting settings ih => exact ih (h.set setting.1 setting.2)

/-- Settings that fit lead to the same answer for every page, whether they are checked or taken as
    they are. And a setting for metadata that is taken as it is answers as its value does, so that
    any value which is neither empty nor the word for more has the outcome of the usual amount, on
    any options and among any other settings whose hooks do not look at it. -/
theorem overrides_agree (readers : Readers) :
    (∀ settings, WellTyped settings → ∃ o, Options.ofSettings settings = .ok o ∧
      ∀ html, (convertPage readers o html).markdown =
        (convertPageWith readers Options.default settings html).markdown) ∧
    ∀ s : Setting, s.metadata.wanted = s.isOn ∧
      (s.metadata.isExtended = true ↔ s = .value (.string "extended")) ∧
      (s.isOn = true → s ≠ .value (.string "extended") →
        ∀ (o : Options) (before after : List (String × Setting)) (html : String),
          (∀ choice, (o.override (before ++ ("include_meta_data", s) :: after)).HooksOverlook
            (HookView.withMetadata choice)) →
          convertPageWith readers o (before ++ ("include_meta_data", s) :: after) html =
            convertPageWith readers o
              (before ++ ("include_meta_data", .value (.string "basic")) :: after) html) := by
  refine ⟨fun settings h => ⟨_, h.ofSettings_eq, fun html => ?_⟩, fun s => ?_⟩
  · rw [convertPageWith_markdown]
    exact (interchangeable_withMetadata h.metadata_eq.1 h.metadata_eq.2
      (h.hooksOverlook _)).convertPage_markdown readers html
  · have hanswers := s.metadata_answers
    refine ⟨hanswers.1, hanswers.2, fun hon hother o before after html hhooks => ?_⟩
    -- The two settings give the same answers, and they still do after those behind them.
    have hsame : (o.override (before ++ ("include_meta_data", s) :: after)).SameAnswers
        (o.override (before ++ ("include_meta_data", .value (.string "basic")) :: after)) := by
      simp only [Options.override, List.foldl_append, List.foldl_cons]
      refine Options.SameAnswers.override (Options.SameAnswers.mk rfl ?_ ?_) after
      · exact (hanswers.1.trans hon).symm
      · exact (Bool.eq_false_iff.mpr fun hextended => hother (hanswers.2.mp hextended)).symm
    have hmarkdown := (interchangeable_withMetadata hsame.wanted hsame.extended
      (hhooks _)).convertPage_markdown readers html
    rw [← hsame.alike, ← convertPageWith_markdown, ← convertPageWith_markdown] at hmarkdown
    have hleft : ∀ s, (convertPageWith readers o (before ++ ("include_meta_data", s) :: after)
        html).options = o := by
      intro s
      have hfilled : (before ++ ("include_meta_data", s) :: after).isEmpty = false := by
        cases before <;> rfl
      unfold convertPageWith withOverrides
      rw [hfilled]
      rfl
    cases hfirst : convertPageWith readers o (before ++ ("include_meta_data", s) :: after) html
    cases hsecond : convertPageWith readers o
      (before ++ ("include_meta_data", .value (.string "basic")) :: after) html
    have hoptions := (hleft s).trans (hleft (.value (.string "basic"))).symm
    rw [hfirst, hsecond] at hmarkdown hoptions
    rw [Outcome.mk.injEq]
    exact ⟨hmarkdown.symm, hoptions⟩

/-- A domain without characters, truth for the wish and a limit; and for the wish a word of the
    caller's own. -/
theorem overrides_agree_truth :
    let reader : String × Setting := ("dom_parser", .value (.string "html.parser"))
    let settings : List (String × Setting) :=
      [("website_domain", .value (.string "")), ("include_meta_data", .value (.bool true)),
        ("max_depth", .value (.integer 3)), reader]
    let html := "<html><head><title>T</title></head><body><a href=\"u\">x</a></body></html>"
    let word : Setting := .value (.string "some")
    let readers := Markup.htmlReaders
    WellTyped settings ∧ word.isOn = true ∧ word ≠ .value (.string "extended") ∧
      (∃ o, Options.ofSettings settings = .ok o ∧ o.metadata = .basic ∧
        (Options.default.override settings).metadata = .value (.bool true) ∧
        (convertPage readers o html).markdown =
          (convertPageWith readers Options.default settings html).markdown) ∧
      (convertPageWith readers Options.default settings html).markdown.result.toOption =
        some "---\ntitle: \"T\"\n---\n\n[x](u)" ∧
      convertPageWith readers Options.default [("include_meta_data", word), reader] html =
        convertPageWith readers Options.default
          [("include_meta_data", .value (.string "basic")), reader] html := by
  intro reader settings html word readers
  -- An empty domain, a truth, a number and a reader, each in the place for its kind.
  have hfits : WellTyped settings := by
    refine ⟨by decide, fun setting hmem => ?_⟩
    simp only [settings, List.mem_cons, List.not_mem_nil, or_false] at hmem
    rcases hmem with rfl | rfl | rfl | rfl
    · exact ⟨.domain, rfl, .domain ""⟩
    · exact ⟨.metadata, rfl, .metadata true⟩
    · exact ⟨.limit, rfl, .limit 3 (by decide)⟩
    · exact ⟨.reader, rfl, .namedReader "html.parser"⟩
  have hon : word.isOn = true := by decide
  have hother : word ≠ .value (.string "extended") := by simp [word]
  rcases (overrides_agree readers).1 settings hfits with ⟨o, ho, hsame⟩
  have hmetadata : o.metadata = .basic := by
    rw [hfits.ofSettings_eq] at ho
    rw [← Except.ok.inj ho]
    rfl
  exact ⟨hfits, hon, hother, ⟨o, ho, hmetadata, rfl, hsame html⟩, by decide +kernel,
    ((overrides_agree readers).2 word).2.2 hon hother Options.default [] [reader] html
      fun _ => ⟨nofun, nofun, nofun, nofun⟩⟩

end PageDistill
