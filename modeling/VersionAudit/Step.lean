import VersionAudit.Failure

/-!
# Steps of an audit

An audit asks a service for graphs and versions, remembers answers, and writes notes for its user. A `Step` does
one part of this: it reads and changes a state, may fail, and keeps its changes and its notes also when it
fails.
-/

namespace VersionAudit

/-- How serious a note is. -/
inductive Level
  | info
  | warning
  | error
deriving Repr, DecidableEq

/-- Which part of an audit wrote a note: a command, or the engine below it. -/
inductive Speaker
  | command
  | engine
deriving Repr, DecidableEq

/-- A note for the user. -/
structure Note where
  level : Level
  speaker : Speaker
  text : String
deriving Repr, DecidableEq

/-- A state with the notes written so far. -/
structure Ledger (σ : Type) where
  state : σ
  notes : List Note := []

/-- A part of an audit that gives an `α` or fails. -/
abbrev Step (σ α : Type) := ExceptT Failure (StateM (Ledger σ)) α

namespace Step

variable {σ τ α : Type}

/-- Writes a note. -/
def note (level : Level) (speaker : Speaker) (text : String) : Step σ Unit :=
  modify fun l => { l with notes := l.notes ++ [⟨level, speaker, text⟩] }

/-- A note of the engine that something is wrong but can be left so. -/
def warn (text : String) : Step σ Unit :=
  note .warning .engine text

/-- The state. -/
def read : Step σ σ := do
  return (← get).state

/-- Replaces the state. -/
def write (s : σ) : Step σ Unit :=
  modify fun l => { l with state := s }

/-- Fails. -/
def fail (failure : Failure) : Step σ α :=
  throw failure

/-- The value, or the failure, of a computation that needs no state. -/
def ofExcept (x : Except Failure α) : Step σ α :=
  match x with
  | .ok a => pure a
  | .error failure => throw failure

/-- Runs a step and gives its result or failure, and the state with the notes it leaves. -/
def run (step : Step σ α) (l : Ledger σ) : Except Failure α × Ledger σ :=
  (ExceptT.run step).run l

/-- The step that gives the result or the failure of another one and does not fail itself. -/
def outcome (step : Step σ α) : Step σ (Except Failure α) :=
  ExceptT.mk do
    let result ← ExceptT.run step
    return .ok result

/-- A step on a part of the state. -/
def within (get : τ → σ) (put : σ → τ → τ) (step : Step σ α) : Step τ α :=
  ExceptT.mk fun (l : Ledger τ) =>
    let (result, inner) := step.run ⟨get l.state, l.notes⟩
    (result, ⟨put inner.state l.state, inner.notes⟩)

end Step

end VersionAudit
