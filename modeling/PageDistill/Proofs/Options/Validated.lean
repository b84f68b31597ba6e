import PageDistill.Options.Settings

/-!
# Options That Were Checked

What the check of settings says about the options that come out of it.

An option that was checked is the default, or what its check makes of a value (`taken_fst`). So
each statement here is one about the check of a single option and about its default. Options that
were changed without a check need not have any of these properties.

A conversion relies on three of them: a domain that is cut off is text, a limit is a positive
whole number, and a reader is asked for by one name or brought along.

## Main definitions

* `Options.Validated`: What options have in common that were checked.

## Theorems

* `validated_of_ofSettings`: Options from settings were checked.
-/

namespace PageDistill

/-- What a conversion needs of its options, and what the check of settings provides. -/
structure Options.Validated (o : Options) : Prop where
  domain : ∀ kind, o.websiteDomain ≠ some (.notText kind)
  limit : ∃ n : Int, 1 ≤ n ∧ o.maxDepth = .whole n
  reader : (∃ name, o.reader = .named name) ∨ ∃ read, o.reader = .custom read

/-- What holds of the default of an option, and of whatever its check lets pass, holds of the
    option. -/
theorem taken_fst {α : Type} (p : α → Prop) (settings : List (String × Setting)) (name : String)
    (check : Setting → Checked α) (default : α) (hdefault : p default)
    (hcheck : ∀ setting a, check setting = .ok a → p a) :
    p (taken settings name check default).1 := by
  unfold taken
  cases Entries.lookup? settings name with
  | none => exact hdefault
  | some setting =>
      simp only
      cases hsetting : check setting with
      | error faults => exact hdefault
      | ok a => exact hcheck setting a hsetting

/-- A domain that was checked is a text. -/
theorem domainOf_ok (setting : Setting) (domain : Option Domain)
    (h : domainOf setting = .ok domain) : ∀ kind, domain ≠ some (.notText kind) := by
  unfold domainOf at h
  split at h
  · rw [← Except.ok.inj h]
    exact nofun
  · rw [← Except.ok.inj h]
    exact nofun
  · exact nomatch h

/-- A limit that was checked is at least one. -/
theorem atLeastOne_ok {n : Int} {limit : DepthLimit} (h : atLeastOne n = .ok limit) :
    ∃ n : Int, 1 ≤ n ∧ limit = .whole n := by
  unfold atLeastOne at h
  by_cases hn : 1 ≤ n
  · rw [if_pos hn] at h
    exact ⟨n, hn, (Except.ok.inj h).symm⟩
  · rw [if_neg hn] at h
    exact nomatch h

/-- However a limit is spelled, it is compared with one in the end. -/
theorem limitOf_ok (setting : Setting) (limit : DepthLimit) (h : limitOf setting = .ok limit) :
    ∃ n : Int, 1 ≤ n ∧ limit = .whole n := by
  unfold limitOf at h
  -- Whatever a limit is given as, it ends in a whole number that is tested.
  split at h
  · exact atLeastOne_ok h
  · exact atLeastOne_ok h
  · split at h
    · split at h
      · split at h
        · exact atLeastOne_ok h
        · exact nomatch h
      · exact nomatch h
    · exact nomatch h
  · rename_i s
    cases hread : integerOfText s.toList with
    | error faults =>
        rw [hread] at h
        exact nomatch h
    | ok n =>
        rw [hread] at h
        exact atLeastOne_ok h
  · exact nomatch h

/-- A reader that was checked is a name or a program. -/
theorem readerOf_ok (setting : Setting) (reader : PageReader) (h : readerOf setting = .ok reader) :
    (∃ name, reader = .named name) ∨ ∃ read, reader = .custom read := by
  unfold readerOf at h
  split at h
  · exact Or.inl ⟨_, (Except.ok.inj h).symm⟩
  · exact Or.inr ⟨_, (Except.ok.inj h).symm⟩
  · exact nomatch h

/-- Options that are made out of settings were checked. -/
theorem validated_of_ofSettings {settings : List (String × Setting)} {o : Options}
    (h : Options.ofSettings settings = .ok o) : o.Validated := by
  unfold Options.ofSettings at h
  simp only at h
  split at h
  · rw [← Except.ok.inj h]
    have hdomain := taken_fst (fun (domain : Option Domain) =>
      ∀ kind, domain ≠ some (.notText kind))
      settings "website_domain" domainOf none (fun _ => nofun) domainOf_ok
    have hlimit := taken_fst (fun (limit : DepthLimit) => ∃ n : Int, 1 ≤ n ∧ limit = .whole n)
      settings "max_depth" limitOf (.whole 256) ⟨256, by decide, rfl⟩ limitOf_ok
    have hreader := taken_fst (fun (reader : PageReader) =>
      (∃ name, reader = .named name) ∨ ∃ read, reader = .custom read)
      settings "dom_parser" readerOf (.named "lxml") (Or.inl ⟨"lxml", rfl⟩) readerOf_ok
    exact ⟨hdomain, hlimit, hreader⟩
  · exact nomatch h

end PageDistill
