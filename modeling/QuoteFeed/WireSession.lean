import QuoteFeed.Exchange
import QuoteFeed.Handlers

/-!
A single connection, with what is to happen inside its reports laid down beforehand.
-/

namespace QuoteFeed

/-- The reports that something can be laid down for. -/
inductive Occasion where
  | up
  | down
  | message
  | error
deriving DecidableEq

inductive WireOp where
  | connect (url : Octets)
  | send (frame : Octets)
  | close
  | complete (operation : Operation) (error : Option Octets) (data : Octets) (later : Bool)
  | poll
  | detach
  | attach
  | react (occasion : Occasion) (operations : List WireOp)

/-- A connection, and the operations laid down for its reports. -/
structure WireSession where
  wires : Wires := { wires := [{ attached := some 0 }] }
  journal : List Entry := []
  reactions : List (Occasion × List WireOp) := []

namespace WireSession

instance : HasWires WireSession where
  wires := wires
  withWires ws s := { s with wires := ws }
  note e s := { s with journal := e :: s.journal }

def occasion : Report → Occasion
  | .opened => .up
  | .closed => .down
  | .error _ => .error
  | .frame _ => .message

def entry : Report → Entry
  | .opened => .status true
  | .closed => .status false
  | .error text => .error text
  | .frame payload => .message payload

/-- A report: it is noted before the operations laid down for it are performed. -/
def notify (perform : WireOp → Step WireSession Unit) (r : Report) : Step WireSession Unit := do
  modify fun s => { s with journal := entry r :: s.journal }
  (((← get).reactions.lookup (occasion r)).getD []).forM perform

/-- The most tasks that are done in one go. -/
def taskLimit : Nat := 1000000

/-- Performs an operation, given what the operations inside reports do. -/
def take (inner : WireOp → Step WireSession Unit) : WireOp → Step WireSession Reply
  | .connect url => do
    let endpoint ← Step.ofExcept ((Endpoint.parse url).mapError .address)
    modify fun s =>
      let (_, entries, wires) := s.wires.connect 0 endpoint
      { s with wires, journal := entries.reverse ++ s.journal }
    pure .nothing
  | .send frame => do
    Exchange.changeAll (Wires.post (.send 0 frame))
    pure .nothing
  | .close => do
    Exchange.changeAll (Wires.post (.close 0))
    pure .nothing
  | .complete operation error data later => do
    pure (.flag (← Exchange.complete (fun _ => notify inner) operation error data later))
  | .poll => do
    Exchange.poll (fun _ => notify inner) taskLimit
    pure .nothing
  | .detach => do
    Exchange.change 0 fun x => { x with attached := none }
    pure .nothing
  | .attach => do
    Exchange.change 0 fun x => { x with attached := some 0 }
    pure .nothing
  | .react occasion operations => do
    modify fun s =>
      { s with reactions := (occasion, operations) :: s.reactions.filter fun (o, _) => o ≠ occasion }
    pure .nothing

/-- Performs an operation inside a report, up to a depth of such reports. -/
def performInside : Nat → WireOp → Step WireSession Unit
  | 0, _ => Step.exhausted
  | depth + 1, op => do
    let _ ← take (performInside depth) op
    pure ()

/-- Performs an operation, up to a depth of operations inside reports. -/
def perform (depth : Nat) (op : WireOp) : Step WireSession Reply := take (performInside depth) op

end WireSession

end QuoteFeed
