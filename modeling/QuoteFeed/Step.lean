import QuoteFeed.Endpoint
import QuoteFeed.Json

/-!
Steps of a run: a step changes a state and gives a value or a failure, and what it changed before a
failure stays changed. Handlers may act back on what called them, so the depth of a run is bounded
by a count; a run that exceeds it gives nothing at all.
-/

namespace QuoteFeed

inductive Failure where
  /-- A document has no written form. -/
  | document (error : Json.Error)
  /-- A text is no address. -/
  | address (error : Endpoint.Error)
  | factory
  | noLink
  /-- A link would not start. -/
  | connectRefused
  /-- A link would not send. -/
  | sendRefused
  /-- A link would not close. -/
  | closeRefused
  | handler
  /-- Something that carries no description. -/
  | foreign
deriving DecidableEq

namespace Failure

/-- Whether a failure describes itself. The client recovers from such failures only. -/
def isStandard : Failure → Bool
  | foreign => false
  | _ => true

def message : Failure → Octets
  | document e => e.message
  | address e => e.message
  | factory => octets "factory failure"
  | noLink => octets "transport factory returned no transport"
  | connectRefused => octets "connect refused"
  | sendRefused => octets "send refused"
  | closeRefused => octets "close refused"
  | handler => octets "handler"
  | foreign => []

end Failure

abbrev Step (σ α : Type) := ExceptT Failure (StateT σ Option) α

namespace Step

variable {σ α : Type}

/-- The step of a run that is too deep. -/
def exhausted : Step σ α := fun _ => none

/-- What a step gives from a state: its value or failure and the state after it. -/
def outcome (x : Step σ α) (s : σ) : Option (Except Failure α × σ) := x.run.run s

@[simp] theorem outcome_pure (a : α) (s : σ) : (pure a : Step σ α).outcome s = some (.ok a, s) := rfl

@[simp] theorem outcome_throw (e : Failure) (s : σ) : (throw e : Step σ α).outcome s = some (.error e, s) := rfl

@[simp] theorem outcome_get (s : σ) : (get : Step σ σ).outcome s = some (.ok s, s) := rfl

@[simp] theorem outcome_set (t s : σ) : (set t : Step σ PUnit).outcome s = some (.ok ⟨⟩, t) := rfl

@[simp] theorem outcome_modify (f : σ → σ) (s : σ) : (modify f : Step σ PUnit).outcome s = some (.ok ⟨⟩, f s) := rfl

@[simp] theorem outcome_exhausted (s : σ) : (exhausted : Step σ α).outcome s = none := rfl

/-- A step after another one sees what the first one gave and left; a failure of the first is that
of both. -/
theorem outcome_bind {β : Type} (x : Step σ α) (f : α → Step σ β) (s : σ) :
    (x >>= f).outcome s = match x.outcome s with
      | none => none
      | some (.ok a, t) => (f a).outcome t
      | some (.error e, t) => some (.error e, t) := by
  simp only [outcome, ExceptT.run_bind, StateT.run_bind]
  rcases StateT.run (ExceptT.run x) s with _ | ⟨_ | _, t⟩ <;> rfl

/-- A caught failure leaves what had been changed before it. -/
theorem outcome_tryCatch (x : Step σ α) (handle : Failure → Step σ α) (s : σ) :
    (tryCatch x handle).outcome s = match x.outcome s with
      | none => none
      | some (.ok a, t) => some (.ok a, t)
      | some (.error e, t) => (handle e).outcome t := by
  have h : (tryCatch x handle).outcome s = Option.bind (x.outcome s) fun p =>
      Step.outcome (match p.1 with | .ok a => pure a | .error e => handle e : Step σ α) p.2 := by
    simp only [outcome, tryCatch, tryCatchThe, MonadExceptOf.tryCatch, ExceptT.tryCatch]
    show Option.bind (x s) _ = Option.bind (x s) _
    congr 1
    funext p
    obtain ⟨_ | _, t⟩ := p <;> rfl
  rw [h]
  rcases x.outcome s with _ | ⟨_ | _, t⟩ <;> rfl

def ignoreFailure (x : Step σ Unit) : Step σ Unit := tryCatch x fun _ => pure ()

def recover (x : Step σ α) (handle : Failure → Step σ α) : Step σ α :=
  tryCatch x fun e => if e.isStandard then handle e else throw e

def ofExcept (x : Except Failure α) : Step σ α :=
  match x with
  | .ok a => pure a
  | .error e => throw e

/-- Fails if there is a failure. -/
def raise (e : Option Failure) : Step σ Unit := e.elim (pure ()) throw

end Step

end QuoteFeed
