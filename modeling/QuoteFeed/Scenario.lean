import QuoteFeed.Connection
import QuoteFeed.Handlers
import QuoteFeed.ScriptedLinks

/-!
Scenarios: a client on scripted links, with scripted handlers that may use the client as well as its
bus. Every run of a client is a scenario.
-/

namespace QuoteFeed

/-- What can be done with a client, besides what can be done with its bus. -/
inductive ClientOp where
  | connect
  | disconnect
  | subscribe (id : Octets)
  | unsubscribe (id : Octets)
  | last (id : Octets)
  | stale (id : Octets) (maxAge : Int)
  | settings
  /-- A link reports, the newest one if none is named; a late report goes to the last attempt that
  the link ever reported to. -/
  | report (link : Option Nat) (late : Bool) (report : Report)
  | script (change : ScriptedLinks.Change)

/-- A client with handlers, on scripted links. -/
abbrev Scenario := Stage (Handler ClientOp) (World ScriptedLinks)

inductive ScenarioOp where
  | act (action : Action ClientOp)
  | advance (ms : Int)
  | takeDown

namespace Scenario

/-- The attempt that a report of a link goes to. -/
def attempt? (link : Option Nat) (late : Bool) (s : ScriptedLinks) : Option Nat := do
  let link ← s.links[link.getD (s.links.length - 1)]?
  if late then link.attempts.head? else link.attached

/-- What the operations on a client do. -/
def semantics : Action.Semantics ClientOp (World ScriptedLinks) := fun emit op => do
  let net := ScriptedLinks.network
  match op with
  | .connect => do
    Client.connect net emit
    pure .nothing
  | .disconnect => do
    Client.disconnect net emit
    pure .nothing
  | .subscribe id => do
    Client.subscribe net emit id
    pure .nothing
  | .unsubscribe id => do
    Client.unsubscribe net emit (.own id)
    pure .nothing
  | .last id => do pure (.quote (← Client.last? id))
  | .stale id maxAge => do pure (.flag (← Client.isStale id maxAge))
  | .settings => do pure (.settings (← Client.current).settings)
  | .report link late report => do
    let s ← get
    match attempt? link late s.rest.outside with
    | some attempt => if !s.rest.client.gone then Client.receive net emit attempt report
    | none => pure ()
    pure .nothing
  | .script change => do
    Client.changeOutside change.apply
    pure .nothing

/-- The way in which a scenario publishes, up to a depth of calls of handlers. -/
def emit (depth : Nat) : Event → Step Scenario Unit := Action.emitter semantics depth

/-- Performs what happens, up to a depth of calls of handlers. -/
def perform (depth : Nat) : ScenarioOp → Step Scenario Reply
  | .act a => a.take semantics (Action.perform semantics depth) none
  | .advance ms => do
    let target := (← get).rest.clock.now + ms
    Client.place.passTo (fun _ => false) (Client.fire ScriptedLinks.network (emit depth)) target (2 * ms.toNat + 3)
    pure .nothing
  | .takeDown => do
    Client.takeDown ScriptedLinks.network
    pure .nothing

/-- A scenario before anything happens, with an observer for each kind of event if asked for. -/
def start (client : Client) (epoch : Instant) (observed measured : Bool) : Scenario where
  bus := if observed then EventKind.all.foldl (fun b k => (b.on k .observer).2) {} else {}
  rest := { client, outside := { measured }, epoch }

end Scenario

end QuoteFeed
