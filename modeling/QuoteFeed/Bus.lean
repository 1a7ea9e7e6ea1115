import QuoteFeed.Journal
import QuoteFeed.Step

/-!
Delivery of events to handlers. Handlers register for a kind of event and are called in the order of
registration. They may register and remove handlers while an event is being delivered: whoever comes
later is not called for it, and neither is whoever has been removed before its turn.
-/

namespace QuoteFeed

structure Slot (β : Type) where
  id : Nat
  kind : EventKind
  body : β
deriving DecidableEq

/-- The registered handlers in the order of registration, and the next number to hand out. -/
structure Bus (β : Type) where
  slots : List (Slot β) := []
  nextId : Nat := 1
deriving DecidableEq

namespace Bus

variable {β : Type}

/-- Registers a handler and tells its number. -/
def on (b : Bus β) (kind : EventKind) (body : β) : Nat × Bus β :=
  (b.nextId, { slots := b.slots ++ [{ id := b.nextId, kind, body }], nextId := b.nextId + 1 })

/-- Removes a handler, and tells whether it was registered. -/
def off (b : Bus β) (id : Nat) : Bool × Bus β :=
  (b.slots.any fun s => s.id = id, { b with slots := b.slots.filter fun s => s.id ≠ id })

/-- Removes every handler; numbers are not handed out again. -/
def clear (b : Bus β) : Bus β := { b with slots := [] }

/-- The numbers of the handlers of a kind. -/
def idsOf (b : Bus β) (kind : EventKind) : List Nat :=
  (b.slots.filter fun s => s.kind = kind).map Slot.id

def count (b : Bus β) (kind : EventKind) : Nat := (b.idsOf kind).length

def find? (b : Bus β) (id : Nat) : Option (Slot β) := b.slots.find? fun s => s.id = id

def setBody (b : Bus β) (id : Nat) (body : β) : Bus β :=
  { b with slots := b.slots.map fun s => if s.id = id then { s with body } else s }

end Bus

/-- A bus with what its handlers act on. The newest entry of the journal comes first. -/
structure Stage (β ρ : Type) where
  bus : Bus β := {}
  journal : List Entry := []
  rest : ρ

namespace Stage

variable {β ρ : Type}

def note (e : Entry) : Step (Stage β ρ) Unit := modify fun s => { s with journal := e :: s.journal }

/-- Adds entries to the journal, the first one first. -/
def noteAll (es : List Entry) : Step (Stage β ρ) Unit :=
  modify fun s => { s with journal := es.reverse ++ s.journal }

/-- Calls the handlers of some numbers, as far as they are still registered. A failure ends the
handler that fails and nothing else. -/
def deliver (run : Slot β → Event → Step (Stage β ρ) Unit) (e : Event) : List Nat → Step (Stage β ρ) Unit
  | [] => pure ()
  | id :: rest => do
    match (← get).bus.find? id with
    | some slot => Step.ignoreFailure (run slot e)
    | none => pure ()
    deliver run e rest

/-- Calls the handlers that are registered for the kind of an event. -/
def publish (run : Slot β → Event → Step (Stage β ρ) Unit) (e : Event) : Step (Stage β ρ) Unit := do
  deliver run e ((← get).bus.idsOf e.kind)

end Stage

end QuoteFeed
