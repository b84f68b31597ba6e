import Mathlib.Data.List.Forall2
import PageDistill.Traced

/-!
# Outcomes of Traced Computations

What is known of a computation when it ends, whether it succeeds or stops.

`x.Ends good bad` says that `x` succeeds with a result that is `good`, or stops with an
error that is `bad`. It speaks of both ways to end, so to prove it for no `bad` errors at all
is to prove that the computation succeeds. The condition on errors is the same for all parts
of a computation, and the condition on results changes from part to part, so each rule below
keeps the first and takes the second apart.

Two computations that end alike are compared by their outcomes alone, so that their notes may
differ. The rules for that have the same shape. `Follows` is weaker: the second ends as the first
does up to a change of the result, and nothing is said of it where the first stops with an error
of some kind.

What a computation notes is a matter apart. `Notes` holds a condition against all notes, and a part
of a computation only counts if the parts before it succeed.

## Main definitions

* `Ends`: A computation ends with a good result or a bad error.
* `Follows`: A computation ends as another does, with the result changed.
* `Notes`: All that a computation notes is of some kind.

## Theorems

* `Ends.bind`: One computation after another.
* `Ends.and`: Two things that are known of a computation.
* `Ends.each`: A computation for each member of a list.
* `Ends.collect`, `Ends.collect_parts`: The same with the results joined.
* `exists_of_mem_right`: Where a member of the second of two lists in step comes from.
* `result_bind_congr`, `result_each_congr`, `result_collect_congr`: Computations with the same
  outcomes make computations with the same outcome.
* `result_collect_append`: The results for two lists in a row.
* `result_collect_filterMap`: Members that give nothing do not count.
* `Follows.bind`, `Follows.each`, `Follows.collect`: What follows in parts follows as a whole.
* `Notes.bind`, `Notes.each`, `Notes.collect`: What is noted in parts is noted as a whole.
-/

namespace PageDistill

namespace Traced

variable {ε α β : Type} {good : α → Prop} {good' : β → Prop} {bad : ε → Prop}

/-- The computation succeeds with a good result or stops with a bad error. -/
def Ends (x : Traced ε α) (good : α → Prop) (bad : ε → Prop) : Prop :=
  match x.result with
  | .ok a => good a
  | .error e => bad e

theorem Ends.pure {a : α} (h : good a) : (Pure.pure a : Traced ε α).Ends good bad := h

theorem Ends.fail {e : ε} (h : bad e) : (Traced.fail e : Traced ε α).Ends good bad := h

/-- One computation after another: the second starts from a good result of the first. -/
theorem Ends.bind {x : Traced ε α} {f : α → Traced ε β} (hx : x.Ends good bad)
    (hf : ∀ a, good a → (f a).Ends good' bad) : (x >>= f).Ends good' bad := by
  unfold Ends at hx ⊢
  rw [result_bind]
  cases hr : x.result with
  | error e =>
      rw [hr] at hx
      exact hx
  | ok a =>
      rw [hr] at hx
      exact hf a hx

/-- What is good for less is good for more. -/
theorem Ends.mono {x : Traced ε α} {better : α → Prop} (h : x.Ends good bad)
    (hgood : ∀ a, good a → better a) : x.Ends better bad := by
  unfold Ends at h ⊢
  cases hr : x.result with
  | error e =>
      rw [hr] at h
      exact h
  | ok a =>
      rw [hr] at h
      exact hgood a h

/-- What is bad for less is bad for more. -/
theorem Ends.mono_bad {x : Traced ε α} {worse : ε → Prop} (h : x.Ends good bad)
    (hbad : ∀ e, bad e → worse e) : x.Ends good worse := by
  unfold Ends at h ⊢
  cases hr : x.result with
  | error e =>
      rw [hr] at h
      exact hbad e h
  | ok a =>
      rw [hr] at h
      exact h

/-- Two things that are known of a computation. -/
theorem Ends.and {x : Traced ε α} {good' : α → Prop} {bad' : ε → Prop} (h : x.Ends good bad)
    (h' : x.Ends good' bad') : x.Ends (fun a => good a ∧ good' a) fun e => bad e ∧ bad' e := by
  unfold Ends at h h' ⊢
  cases hr : x.result with
  | error e =>
      rw [hr] at h h'
      exact ⟨h, h'⟩
  | ok a =>
      rw [hr] at h h'
      exact ⟨h, h'⟩

/-- A computation ends as it does. -/
theorem Ends.exact (x : Traced ε α) :
    x.Ends (fun a => x.result = .ok a) fun e => x.result = .error e := by
  unfold Ends
  cases x.result <;> rfl

/-- What is known of a result, together with the result it is. -/
theorem Ends.and_result {x : Traced ε α} (h : x.Ends good bad) :
    x.Ends (fun a => good a ∧ x.result = .ok a) bad :=
  (h.and (Ends.exact x)).mono_bad fun _ he => he.1

/-- A result that is good is a result. -/
theorem Ends.result {x : Traced ε α} (h : x.Ends good bad) :
    x.Ends (fun a => x.result = .ok a) bad := h.and_result.mono fun _ ha => ha.2

/-- Nothing is said of how a computation ends. -/
theorem Ends.any (x : Traced ε α) : x.Ends (fun _ => True) fun _ => True := by
  unfold Ends
  cases x.result <;> exact True.intro

theorem Ends.debug (message : String) :
    (Traced.debug message : Traced ε Unit).Ends (fun _ => True) bad := True.intro

theorem Ends.warn (message : String) :
    (Traced.warn message : Traced ε Unit).Ends (fun _ => True) bad := True.intro

/-- A decision is noted or not; nothing else happens. -/
theorem Ends.debugIf (wanted : Bool) (message : String) :
    (Traced.debugIf wanted message : Traced ε Unit).Ends (fun _ => True) bad := by
  cases wanted <;> exact True.intro

/-- A computation for each member of a list, with a relation between the members and their
    results. -/
theorem Ends.each {related : α → β → Prop} (f : α → Traced ε β) (l : List α)
    (h : ∀ a ∈ l, (f a).Ends (related a) bad) :
    (Traced.each f l).Ends (List.Forall₂ related l) bad := by
  induction l with
  | nil => exact Ends.pure List.Forall₂.nil
  | cons a rest ih =>
      refine (h a List.mem_cons_self).bind fun b hb => ?_
      refine (ih fun c hc => h c (List.mem_cons_of_mem a hc)).bind fun bs hbs => ?_
      exact Ends.pure (List.Forall₂.cons hb hbs)

/-- A computation for each member of a list, all results of which are good. -/
theorem Ends.each_all (good : β → Prop) (f : α → Traced ε β) (l : List α)
    (h : ∀ a ∈ l, (f a).Ends good bad) :
    (Traced.each f l).Ends (fun bs => ∀ b ∈ bs, good b) bad := by
  induction l with
  | nil => exact Ends.pure fun b hb => absurd hb List.not_mem_nil
  | cons a rest ih =>
      refine (h a List.mem_cons_self).bind fun b hb => ?_
      refine (ih fun c hc => h c (List.mem_cons_of_mem a hc)).bind fun bs hbs => ?_
      exact Ends.pure (List.forall_mem_cons.mpr ⟨hb, hbs⟩)

/-- A computation for each member of a list, with a statement about lists that holds of the
    empty ones and goes over to the results in a row. -/
theorem Ends.collect (related : List α → List β → Prop) (f : α → Traced ε (List β)) (l : List α)
    (hnil : related [] [])
    (hcons : ∀ a rest bs others, related [a] bs → related rest others →
      related (a :: rest) (bs ++ others))
    (h : ∀ a ∈ l, (f a).Ends (related [a]) bad) : (Traced.collect f l).Ends (related l) bad := by
  induction l with
  | nil => exact Ends.pure hnil
  | cons a rest ih =>
      refine (h a List.mem_cons_self).bind fun bs hbs => ?_
      refine (ih fun c hc => h c (List.mem_cons_of_mem a hc)).bind fun others hothers => ?_
      exact Ends.pure (hcons a rest bs others hbs hothers)

/-- A computation for each member of a list with the results joined, when something is known of
    each result: the joined list falls into parts that come in step with the members. -/
theorem Ends.collect_parts {related : α → List β → Prop} (f : α → Traced ε (List β)) (l : List α)
    (h : ∀ a ∈ l, (f a).Ends (related a) bad) :
    (Traced.collect f l).Ends
      (fun bs => ∃ parts, List.Forall₂ related l parts ∧ bs = parts.flatten) bad := by
  induction l with
  | nil => exact Ends.pure ⟨[], List.Forall₂.nil, rfl⟩
  | cons a rest ih =>
      refine (h a List.mem_cons_self).bind fun bs hbs => ?_
      refine (ih fun c hc => h c (List.mem_cons_of_mem a hc)).bind fun others hothers => ?_
      rcases hothers with ⟨parts, hparts, rfl⟩
      exact Ends.pure ⟨bs :: parts, List.Forall₂.cons hbs hparts, rfl⟩

/-- A member of the second of two lists that go in step belongs to a member of the first. -/
theorem exists_of_mem_right {α β : Type} {r : α → β → Prop} {l : List α} {l' : List β}
    (h : List.Forall₂ r l l') {b : β} (hb : b ∈ l') : ∃ a ∈ l, r a b := by
  induction h with
  | nil => exact absurd hb List.not_mem_nil
  | cons hhead _ ih =>
      rcases List.mem_cons.mp hb with rfl | hb
      · exact ⟨_, List.mem_cons_self, hhead⟩
      · rcases ih hb with ⟨a, ha, hab⟩
        exact ⟨a, List.mem_cons_of_mem _ ha, hab⟩

theorem Ends.of_ok {x : Traced ε α} (h : x.Ends good bad) {a : α} (hr : x.result = .ok a) :
    good a := by
  unfold Ends at h
  rw [hr] at h
  exact h

/-- An outcome in words: a good result, or a bad error. -/
theorem Ends.cases {x : Traced ε α} (h : x.Ends good bad) :
    (∃ a, x.result = .ok a ∧ good a) ∨ ∃ e, x.result = .error e ∧ bad e := by
  unfold Ends at h
  cases hr : x.result with
  | error e =>
      rw [hr] at h
      exact Or.inr ⟨e, rfl, h⟩
  | ok a =>
      rw [hr] at h
      exact Or.inl ⟨a, rfl, h⟩

variable {γ : Type}

/-- One computation after another, twice with the same outcomes. -/
theorem result_bind_congr {x x' : Traced ε α} {f f' : α → Traced ε β}
    (hx : x.result = x'.result) (hf : ∀ a, (f a).result = (f' a).result) :
    (x >>= f).result = (x' >>= f').result := by
  rw [result_bind, result_bind, hx]
  cases x'.result with
  | error e => rfl
  | ok a => exact hf a

/-- A note has no part in the outcome. -/
theorem result_debugIf_bind (wanted : Bool) (message : String) (f : Unit → Traced ε β) :
    (debugIf wanted message >>= f).result = (f ()).result := by
  cases wanted <;> rfl

/-- A computation for each member of a list, and another for each member of a list in step. -/
theorem result_each_congr {f : α → Traced ε γ} {g : β → Traced ε γ} {l : List α} {l' : List β}
    (h : List.Forall₂ (fun a b => (f a).result = (g b).result) l l') :
    (each f l).result = (each g l').result := by
  induction h with
  | nil => rfl
  | cons hhead _ ih => exact result_bind_congr hhead fun _ => result_bind_congr ih fun _ => rfl

/-- One member in front of others, with the results joined. -/
theorem result_collect_cons_congr {f : α → Traced ε (List γ)} {g : β → Traced ε (List γ)} {a : α}
    {b : β} {l : List α} {l' : List β} (hhead : (f a).result = (g b).result)
    (hrest : (collect f l).result = (collect g l').result) :
    (collect f (a :: l)).result = (collect g (b :: l')).result :=
  result_bind_congr hhead fun _ => result_bind_congr hrest fun _ => rfl

/-- The same with the results joined. -/
theorem result_collect_congr {f : α → Traced ε (List γ)} {g : β → Traced ε (List γ)} {l : List α}
    {l' : List β} (h : List.Forall₂ (fun a b => (f a).result = (g b).result) l l') :
    (collect f l).result = (collect g l').result := by
  induction h with
  | nil => rfl
  | cons hhead _ ih => exact result_collect_cons_congr hhead ih

theorem result_collect_singleton (f : α → Traced ε (List β)) (a : α) :
    (collect f [a]).result = (f a).result := by
  rw [collect, result_bind]
  cases (f a).result with
  | error e => rfl
  | ok bs => exact congrArg Except.ok (List.append_nil bs)

/-- The results for two lists in a row are those for the first and those for the second. -/
theorem result_collect_append (f : α → Traced ε (List β)) (l more : List α) :
    (collect f (l ++ more)).result =
      (collect f l >>= fun bs =>
        collect f more >>= fun others => Pure.pure (bs ++ others)).result := by
  induction l with
  | nil =>
      change (collect f more).result =
        (collect f more >>= fun others => Pure.pure ([] ++ others)).result
      rw [result_bind]
      cases (collect f more).result <;> rfl
  | cons a rest ih =>
      rw [List.cons_append, collect, collect]
      simp only [result_bind, ih]
      -- The first failure ends both sides, in the same place.
      cases (f a).result with
      | error e => rfl
      | ok bs =>
          cases (collect f rest).result with
          | error e => rfl
          | ok others =>
              cases (collect f more).result with
              | error e => rfl
              | ok last => exact congrArg Except.ok (List.append_assoc bs others last).symm

/-- A computation for each member of a list when only some members count: for the others it
    gives nothing. -/
theorem result_collect_filterMap {f : α → Traced ε (List γ)} {g : β → Traced ε (List γ)}
    {select : α → Option β} {l : List α}
    (hnone : ∀ a ∈ l, select a = none → (f a).result = .ok [])
    (hsome : ∀ a ∈ l, ∀ b, select a = some b → (f a).result = (g b).result) :
    (collect f l).result = (collect g (l.filterMap select)).result := by
  induction l with
  | nil => rfl
  | cons a rest ih =>
      have hrest := ih (fun c hc => hnone c (List.mem_cons_of_mem a hc))
        fun c hc => hsome c (List.mem_cons_of_mem a hc)
      cases hselect : select a with
      | none =>
          rw [List.filterMap_cons_none hselect, ← hrest, collect, result_bind,
            hnone a List.mem_cons_self hselect]
          change (collect f rest >>= fun bs => Pure.pure ([] ++ bs)).result = _
          rw [result_bind]
          cases (collect f rest).result <;> rfl
      | some b =>
          rw [List.filterMap_cons_some hselect]
          exact result_collect_cons_congr (hsome a List.mem_cons_self b hselect) hrest

variable {δ : Type} {excused : ε → Prop} {change : α → β} {change' : γ → δ}

/-- The second computation ends as the first does, with the result changed, unless the first stops
    with an error that is excused. -/
def Follows (excused : ε → Prop) (change : α → β) (x : Traced ε α) (y : Traced ε β) : Prop :=
  (∃ e, excused e ∧ x.result = .error e) ∨ y.result = x.result.map change

theorem Follows.pure (a : α) :
    Follows excused change (Pure.pure a : Traced ε α) (Pure.pure (change a)) :=
  Or.inr rfl

/-- The same outcome is the outcome without a change. -/
theorem Follows.of_eq {x y : Traced ε α} (h : y.result = x.result) : Follows excused id x y := by
  refine Or.inr ?_
  rw [h]
  cases x.result <;> rfl

/-- One computation after another: the second of each goes on from the changed result. -/
theorem Follows.bind {x : Traced ε α} {y : Traced ε β} {f : α → Traced ε γ} {g : β → Traced ε δ}
    (h : Follows excused change x y) (hf : ∀ a, Follows excused change' (f a) (g (change a))) :
    Follows excused change' (x >>= f) (y >>= g) := by
  unfold Follows
  rw [result_bind, result_bind]
  rcases h with ⟨e, he, hx⟩ | hy
  · rw [hx]
    exact Or.inl ⟨e, he, rfl⟩
  · rw [hy]
    cases x.result with
    | error e => exact Or.inr rfl
    | ok a => exact hf a

theorem Follows.each {f : α → Traced ε γ} {g : α → Traced ε δ} (l : List α)
    (h : ∀ a ∈ l, Follows excused change' (f a) (g a)) :
    Follows excused (List.map change') (Traced.each f l) (Traced.each g l) := by
  induction l with
  | nil => exact Follows.pure []
  | cons a rest ih =>
      refine (h a List.mem_cons_self).bind fun b => ?_
      refine (ih fun c hc => h c (List.mem_cons_of_mem a hc)).bind fun bs => ?_
      exact Follows.pure (b :: bs)

/-- The results joined, for a change that may be made before joining or after it. -/
theorem Follows.collect {f : α → Traced ε (List γ)} {g : α → Traced ε (List δ)}
    {change : List γ → List δ} (hnil : change [] = [])
    (happend : ∀ a b, change (a ++ b) = change a ++ change b) (l : List α)
    (h : ∀ a ∈ l, Follows excused change (f a) (g a)) :
    Follows excused change (Traced.collect f l) (Traced.collect g l) := by
  induction l with
  | nil => exact Or.inr (congrArg Except.ok hnil.symm)
  | cons a rest ih =>
      refine (h a List.mem_cons_self).bind fun bs => ?_
      refine (ih fun c hc => h c (List.mem_cons_of_mem a hc)).bind fun others => ?_
      exact Or.inr (congrArg Except.ok (happend bs others).symm)

variable {kind : Note → Prop}

/-- Everything that a computation notes is of some kind. -/
def Notes (kind : Note → Prop) (x : Traced ε α) : Prop := ∀ note ∈ x.log, kind note

theorem Notes.pure (a : α) : (Pure.pure a : Traced ε α).Notes kind := nofun

theorem Notes.fail (e : ε) : (Traced.fail e : Traced ε α).Notes kind := nofun

theorem Notes.warn {message : String} (h : kind ⟨.warning, message⟩) :
    (Traced.warn message : Traced ε Unit).Notes kind :=
  fun _ hnote => List.mem_singleton.mp hnote ▸ h

theorem Notes.debugIf {wanted : Bool} {message : String} (h : kind ⟨.debug, message⟩) :
    (Traced.debugIf wanted message : Traced ε Unit).Notes kind := by
  cases wanted with
  | false => exact nofun
  | true => exact fun _ hnote => List.mem_singleton.mp hnote ▸ h

/-- A computation that stops is the last to note anything. -/
theorem log_bind_error {x : Traced ε α} (f : α → Traced ε β) {e : ε} (h : x.result = .error e) :
    (x >>= f).log = x.log := by
  change (andThen x f).log = _
  rw [andThen, h]

/-- One computation after another: the second runs only when the first succeeds. -/
theorem Notes.bind {x : Traced ε α} {f : α → Traced ε β} (hx : x.Notes kind)
    (hf : ∀ a, x.result = .ok a → (f a).Notes kind) : (x >>= f).Notes kind := by
  intro note hnote
  cases hr : x.result with
  | error e =>
      rw [log_bind_error f hr] at hnote
      exact hx note hnote
  | ok a =>
      rw [log_bind_ok x f a hr] at hnote
      rcases List.mem_append.mp hnote with h | h
      · exact hx note h
      · exact hf a hr note h

theorem Notes.each {f : α → Traced ε β} (l : List α) (h : ∀ a ∈ l, (f a).Notes kind) :
    (Traced.each f l).Notes kind := by
  induction l with
  | nil => exact Notes.pure []
  | cons a rest ih =>
      refine (h a List.mem_cons_self).bind fun b _ => ?_
      refine (ih fun c hc => h c (List.mem_cons_of_mem a hc)).bind fun bs _ => ?_
      exact Notes.pure (b :: bs)

theorem Notes.collect {f : α → Traced ε (List β)} (l : List α) (h : ∀ a ∈ l, (f a).Notes kind) :
    (Traced.collect f l).Notes kind := by
  induction l with
  | nil => exact Notes.pure []
  | cons a rest ih =>
      refine (h a List.mem_cons_self).bind fun bs _ => ?_
      refine (ih fun c hc => h c (List.mem_cons_of_mem a hc)).bind fun others _ => ?_
      exact Notes.pure (bs ++ others)

end Traced

end PageDistill
