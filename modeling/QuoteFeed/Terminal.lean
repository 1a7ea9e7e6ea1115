import QuoteFeed.Connection
import QuoteFeed.Exchange
import QuoteFeed.Happening
import QuoteFeed.Invocation
import QuoteFeed.Printing

/-!
The program: a client over the network that prints what it hears until a signal ends it. The network
and the signals are given as a list of happenings. The program waits for the next one whenever there
is nothing left to do.
-/

namespace QuoteFeed

structure Tally where
  name : Octets
  count : Nat
  sum : Binary64
deriving DecidableEq

namespace Tally

/-- Adds a measurement. Names are kept in order. -/
def add (name : Octets) (value : Binary64) : List Tally → List Tally
  | [] => [{ name, count := 1, sum := Binary64.zero false + value }]
  | t :: rest =>
    if t.name = name then { t with count := t.count + 1, sum := t.sum + value } :: rest
    else if name.before t.name then { name, count := 1, sum := Binary64.zero false + value } :: t :: rest
    else t :: add name value rest

/-- What is said of the measurements of a name. -/
def text (t : Tally) : Octets :=
  octets "metric " ++ t.name ++ octets ": " ++ decimal t.count ++ octets " sample(s), sum " ++ t.sum.plainText

end Tally

/-- The world of the program: connections, measurements, and whether a signal is awaited or the
program stopped. -/
structure Surroundings where
  wires : Wires
  tallies : List Tally := []
  level : LogLevel
  awaitsSignal : Bool := true
  stopped : Bool := false

abbrev Terminal := Stage Empty (World Surroundings)

/-- What comes of a run: the exit code if the program ends, what it shows before each wait, and what
it shows after the last one. -/
structure RunResult where
  exit : Option Nat
  steps : List (List Entry)
  last : Option (List Entry)

namespace Terminal

instance : HasWires Terminal where
  wires s := s.rest.outside.wires
  withWires ws s := { s with rest.outside.wires := ws }
  note e s := { s with journal := e :: s.journal }

def onWires {α : Type} (f : Wires → α × List Entry × Wires) : Effect Surroundings α := fun s =>
  let (a, entries, wires) := f s.wires
  (a, entries, { s with wires })

def post (t : Task) : Effect Surroundings (Option Failure) := onWires fun ws => (none, [], ws.post t)

/-- Connections as the links of a client. -/
def network : Network Surroundings where
  create := onWires fun ws =>
    let (w, ws) := ws.add
    (.ok (some w), [], ws)
  attach w attempt s := { s with wires := s.wires.change w fun x => { x with attached := some attempt } }
  detach w s := { s with wires := s.wires.change w fun x => { x with attached := none } }
  attached? w s := (s.wires.wire w).attached
  dial w endpoint := onWires fun ws =>
    let (_, entries, ws) := ws.connect w endpoint
    (([], none), entries, ws)
  send w frame := post (.send w frame)
  close w := post (.close w)
  sample name value s := ((), [], { s with tallies := Tally.add name value s.tallies })

def print (e : Event) : Step Terminal Unit := Stage.noteAll ((Printing.event e).map .output)

/-- Logs a line, if its level is wanted. -/
def log (level : LogLevel) (text : Octets) : Step Terminal Unit := do
  if LogLevel.passes (← get).rest.outside.level level then Stage.note (.log level text)

def fire (w : Wait) : Step Terminal Unit :=
  if w.timer = .shutdown then modify fun s => { s with rest.outside.stopped := true }
  else Client.fire network print w

def notify : Nat → Report → Step Terminal Unit := Client.receive network print

/-- The time that connections are given to close, in milliseconds. -/
def grace : Int := 2000

/-- A signal: the client disconnects, and the program stops after some time. -/
def shutDown (number : Int) : Step Terminal Unit := do
  modify fun s => { s with rest.outside.awaitsSignal := false }
  log .info (octets "signal " ++ decimalInt number ++ octets " received, shutting down")
  Client.disconnect network print
  Client.changeClock fun c => c.arm .shutdown 0 grace

def happen : Happening → Step Terminal Unit
  | .complete operation error data later => do
    if !(← Exchange.complete notify operation error data later) then Stage.note .nothingPending
  | .advance ms => do
    let target := (← get).rest.clock.now + ms
    Client.place.passTo (fun s => s.rest.outside.stopped) fire target (2 * ms.toNat + 4)
  | .signal number => do
    if (← get).rest.outside.awaitsSignal then shutDown number else Stage.note .nothingPending

/-- Whether nothing can happen any more. -/
def isOver (s : Terminal) : Bool :=
  s.rest.outside.stopped
    || (s.rest.clock.waits.isEmpty && s.rest.outside.wires.pending.isEmpty && !s.rest.outside.awaitsSignal)

/-- What has been shown since the last wait. -/
def takeShown : Step Terminal (List Entry) := do
  let s ← get
  set { s with journal := [] }
  pure s.journal.reverse

/-- The most tasks that are done in one go. -/
def taskLimit : Nat := 1000000

/-- Does what is to be done and waits for what happens, until nothing can happen any more. -/
def run : List Happening → List (List Entry) → Step Terminal RunResult
  | happenings, steps => do
    if !(← get).rest.outside.stopped then Exchange.poll notify taskLimit
    if isOver (← get) then
      (← get).rest.outside.tallies.forM fun t => log .info t.text
      pure { exit := some 0, steps, last := some (← takeShown) }
    else
      let shown ← takeShown
      match happenings with
      | [] => pure { exit := none, steps := steps ++ [shown], last := none }
      | h :: rest => do
        happen h
        run rest (steps ++ [shown])

def work (happenings : List Happening) : Step Terminal RunResult := do
  (← Client.current).settings.markets.forM (Client.subscribe network print)
  if (← Client.current).watchlist.isEmpty then
    log .warn (octets "no markets given, connection will only carry heartbeats")
  Client.connect network print
  run happenings []

def start (client : Client) (wires : Wires) (level : LogLevel) (epoch : Instant) : Terminal where
  rest := { client, outside := { wires, level }, epoch }

/-- A run that ends before it has begun, showing some entries. -/
def early (exit : Nat) (shown : List Entry) : Option (Except Failure RunResult) :=
  some (.ok { exit := some exit, steps := [], last := some shown })

/-- A whole run of the program, with the network that its connections start from. -/
def execute (args : List Octets) (files : Octets → Option Octets) (env : Settings.Environment) (wires : Wires)
    (epoch : Instant) (happenings : List Happening) : Option (Except Failure RunResult) :=
  match Invocation.ofArgs args with
  | none => early 0 [.output Invocation.usage]
  | some v =>
    match v.settings files env with
    | .error e => early 2 [.log .error (octets "configuration error: " ++ e.message.untilNul)]
    | .ok (settings, endpoint) =>
      ((work happenings).outcome (start (Client.ofSettings settings endpoint) wires v.level epoch)).map Prod.fst

end Terminal

end QuoteFeed
