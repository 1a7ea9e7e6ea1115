import QuoteFeed.Heartbeat
import QuoteFeed.Journal

/-!
A heartbeat on its own clock, with what is to happen inside its pings laid down beforehand.
-/

namespace QuoteFeed

/-- Something that happens to a heartbeat. -/
inductive Pulse where
  | start (interval : Int)
  | refresh
  | stop
  | ping
deriving DecidableEq

/-- What a pulse makes of a heartbeat and its clock. -/
def Heartbeat.feel : Pulse → Heartbeat → Clock → Heartbeat × Clock
  | .start interval => start interval
  | .refresh => refresh
  | .stop => stop
  | .ping => beat

/-- An operation on a heartbeat. A start says whether pings are heard of, and what a ping does,
pings being counted from the start. -/
inductive HeartbeatOp where
  | start (interval : Int) (heard : Bool) (plan : List (Nat × HeartbeatOp))
  | refresh
  | stop
  | advance (ms : Int)

/-- A heartbeat with its clock, the pings since the last start, and every pulse so far with its time, the last one
first. -/
structure HeartbeatSession where
  heartbeat : Heartbeat := {}
  clock : Clock := {}
  heard : Bool := true
  plan : List (Nat × HeartbeatOp) := []
  sinceStart : Nat := 0
  journal : List Entry := []
  history : List (Int × Pulse) := []

namespace HeartbeatSession

def place : ClockIn HeartbeatSession := ⟨clock, fun c s => { s with clock := c }⟩

/-- Puts a heartbeat and a clock in place. -/
def put (s : HeartbeatSession) (p : Heartbeat × Clock) : HeartbeatSession :=
  { s with heartbeat := p.1, clock := p.2 }

/-- What a pulse leaves. -/
def felt (p : Pulse) (s : HeartbeatSession) : HeartbeatSession :=
  { s.put (s.heartbeat.feel p s.clock) with history := (s.clock.now, p) :: s.history }

def feel (p : Pulse) : Step HeartbeatSession Unit := modify (felt p)

/-- A ping: the next one is due before anything is done inside this one. -/
def ping (callback : Step HeartbeatSession Unit) : Step HeartbeatSession Unit := do
  feel .ping
  callback

def fire (callback : Step HeartbeatSession Unit) (w : Wait) : Step HeartbeatSession Unit := do
  if w.timer = .heartbeat ∧ (← get).heartbeat.expects w then ping callback

/-- Lets some milliseconds pass. -/
def pass (callback : Step HeartbeatSession Unit) (ms : Int) : Step HeartbeatSession Unit := do
  let target := (← get).clock.now + ms
  place.passTo (fun _ => false) (fire callback) target (ms.toNat + 2)

/-- What a ping leaves: it is noted if it is heard of. -/
def noted (s : HeartbeatSession) : HeartbeatSession :=
  { s with sinceStart := s.sinceStart + 1, journal := .ping s.clock.now :: s.journal }

/-- What is laid down to happen inside a ping. -/
def planned (perform : HeartbeatOp → Step HeartbeatSession Unit) : Step HeartbeatSession Unit := do
  if (← get).heard then
    modify noted
    let s ← get
    match s.plan.lookup s.sinceStart with
    | some op => perform op
    | none => pure ()

/-- Performs an operation, up to a depth of operations inside pings. -/
def perform : Nat → HeartbeatOp → Step HeartbeatSession Unit
  | 0, _ => Step.exhausted
  | _ + 1, .start interval heard plan => do
    feel (.start interval)
    modify fun s => { s with heard, plan, sinceStart := 0 }
  | _ + 1, .refresh => feel .refresh
  | _ + 1, .stop => feel .stop
  | depth + 1, .advance ms => pass (planned (perform depth)) ms

end HeartbeatSession

end QuoteFeed
