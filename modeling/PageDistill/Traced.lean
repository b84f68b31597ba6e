/-!
# Traced Computations

Computations that note what they did while they run, and may stop with an
error.

A computation that stops keeps what it noted before. Its outcome is a plain
`Except`, so a statement about the outcome alone need not mention the notes:
`result_bind` says that taking the outcome commutes with running one computation
after another.

## Main definitions

* `Severity`, `Note`: What is noted.
* `Traced`: A computation with its notes and its outcome.
* `Traced.note`, `Traced.fail`, `Traced.ofExcept`: The basic computations.
* `Traced.each`, `Traced.collect`: Running a computation for each member of a
  list.

## Theorems

* `result_bind`: The outcome of two computations in a row.
* `log_bind_ok`: Their notes, when the first one succeeds.
-/

namespace PageDistill

/-- How much a note matters: a trace of decisions, news of what was done, or a
    warning about the input. -/
inductive Severity where
  | debug
  | info
  | warning
  deriving DecidableEq, Repr

/-- A note with its severity. -/
structure Note where
  severity : Severity
  message : String
  deriving DecidableEq, Repr

/-- A computation that has ended: its notes in order, and its outcome. -/
structure Traced (ε α : Type) where
  log : List Note
  result : Except ε α

namespace Traced

variable {ε α β : Type}

/-- A result without notes. -/
def done (a : α) : Traced ε α := ⟨[], .ok a⟩

/-- One computation after another. An error ends both. -/
def andThen (x : Traced ε α) (f : α → Traced ε β) : Traced ε β :=
  match x.result with
  | .error e => ⟨x.log, .error e⟩
  | .ok a => ⟨x.log ++ (f a).log, (f a).result⟩

instance : Monad (Traced ε) where
  pure := done
  bind := andThen

/-- Stops with an error. -/
def fail (e : ε) : Traced ε α := ⟨[], .error e⟩

/-- Notes a message. -/
def note (severity : Severity) (message : String) : Traced ε Unit := ⟨[⟨severity, message⟩], .ok ()⟩

/-- Notes a decision. -/
def debug (message : String) : Traced ε Unit := note .debug message

/-- Notes a decision if such notes are wanted. -/
def debugIf (wanted : Bool) (message : String) : Traced ε Unit :=
  if wanted then debug message else done ()

/-- Notes a warning about the input. -/
def warn (message : String) : Traced ε Unit := note .warning message

/-- An outcome without notes. -/
def ofExcept (r : Except ε α) : Traced ε α := ⟨[], r⟩

/-- Runs a computation for each member of a list and lists the results. -/
def each (f : α → Traced ε β) : List α → Traced ε (List β)
  | [] => done []
  | a :: rest => do
    let b ← f a
    let bs ← each f rest
    return b :: bs

/-- Runs a computation for each member of a list and joins the results. -/
def collect (f : α → Traced ε (List β)) : List α → Traced ε (List β)
  | [] => done []
  | a :: rest => do
    let b ← f a
    let bs ← collect f rest
    return b ++ bs

/-- The outcome of two computations in a row is the two outcomes in a row. -/
theorem result_bind (x : Traced ε α) (f : α → Traced ε β) :
    (x >>= f).result = x.result >>= fun a => (f a).result := by
  change (andThen x f).result = _
  rw [andThen]
  cases x.result with
  | error e => rfl
  | ok a => rfl

/-- When the first computation succeeds, the notes of the second follow. -/
theorem log_bind_ok (x : Traced ε α) (f : α → Traced ε β) (a : α) (h : x.result = .ok a) :
    (x >>= f).log = x.log ++ (f a).log := by
  change (andThen x f).log = _
  rw [andThen, h]

end Traced

end PageDistill
