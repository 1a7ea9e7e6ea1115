import QuoteFeed.Bus
import QuoteFeed.Settings

/-!
Handlers as data: lists of actions on the bus and on whatever else there is. An action of a handler
may have events published, and so call handlers again; a count bounds the depth of this.
-/

namespace QuoteFeed

/-- What a handler can do, `ω` being what it can do besides using the bus. -/
inductive Action (ω : Type) where
  | on (kind : EventKind) (actions : List (Action ω)) (times : Option Nat)
  | off (id : Nat)
  | count (kind : EventKind)
  | clear
  | publish (event : Event)
  | fail
  | failForeign
  | offSelf
  | other (operation : ω)

/-- A handler that only observes, or one with actions, which it takes in its next `times` calls
only, if a number of times is given. -/
inductive Handler (ω : Type) where
  | observer
  | script (actions : List (Action ω)) (times : Option Nat)

inductive Reply where
  | nothing
  | id (id : Nat)
  | flag (b : Bool)
  | count (n : Nat)
  | quote (quote : Option Quote)
  | settings (settings : Settings)
deriving DecidableEq

namespace Handler

variable {ω ρ : Type}

def afterCall : Handler ω → Handler ω
  | observer => observer
  | script actions times => script actions (times.map fun n => n - 1)

def actionsOfCall : Handler ω → List (Action ω)
  | observer | script _ (some 0) => []
  | script actions _ => actions

def entry (slot : Slot (Handler ω)) (e : Event) : Entry :=
  match slot.body with
  | observer => .event e
  | script _ _ => .handled slot.id e

/-- Calls a handler: the call is noted and counted before its actions are taken. -/
def run (act : Nat → Action ω → Step (Stage (Handler ω) ρ) Unit) (slot : Slot (Handler ω)) (e : Event) :
    Step (Stage (Handler ω) ρ) Unit := do
  Stage.note (entry slot e)
  modify fun s => { s with bus := s.bus.setBody slot.id slot.body.afterCall }
  slot.body.actionsOfCall.forM (act slot.id)

end Handler

namespace Action

variable {ω ρ : Type}

/-- What the operations besides those on the bus do, given a way to publish events. -/
abbrev Semantics (ω ρ : Type) :=
  (Event → Step (Stage (Handler ω) ρ) Unit) → ω → Step (Stage (Handler ω) ρ) Reply

/-- Takes an action, given what the actions of called handlers do and who is acting. -/
def take (semantics : Semantics ω ρ) (act : Nat → Action ω → Step (Stage (Handler ω) ρ) Unit) (self : Option Nat) :
    Action ω → Step (Stage (Handler ω) ρ) Reply
  | on kind actions times => do
    let (id, bus) := (← get).bus.on kind (.script actions times)
    modify fun s => { s with bus }
    pure (.id id)
  | off id => do
    let (wasThere, bus) := (← get).bus.off id
    modify fun s => { s with bus }
    pure (.flag wasThere)
  | count kind => do pure (.count ((← get).bus.count kind))
  | clear => do
    modify fun s => { s with bus := s.bus.clear }
    pure .nothing
  | publish e => do
    Stage.publish (Handler.run act) e
    pure .nothing
  | fail => throw .handler
  | failForeign => throw .foreign
  | offSelf => do
    match self with
    | some id => modify fun s => { s with bus := (s.bus.off id).2 }
    | none => pure ()
    pure .nothing
  | other o => semantics (Stage.publish (Handler.run act)) o

/-- Takes an action of a handler, up to a depth of calls. -/
def perform (semantics : Semantics ω ρ) : Nat → Nat → Action ω → Step (Stage (Handler ω) ρ) Unit
  | 0, _, _ => Step.exhausted
  | depth + 1, self, action => do
    let _ ← take semantics (perform semantics depth) (some self) action
    pure ()

/-- The way to publish events, up to a depth of calls. -/
def emitter (semantics : Semantics ω ρ) (depth : Nat) : Event → Step (Stage (Handler ω) ρ) Unit :=
  Stage.publish (Handler.run (perform semantics depth))

end Action

/-- A bus with scripted handlers and nothing else. -/
abbrev BusSession := Stage (Handler Empty) Unit

def BusSession.perform (depth : Nat) (a : Action Empty) : Step BusSession Reply :=
  a.take (fun _ o => nomatch o) (Action.perform (fun _ o => nomatch o) depth) none

end QuoteFeed
