import QuoteFeed.Backoff
import QuoteFeed.Bus
import QuoteFeed.Heartbeat
import QuoteFeed.Link
import QuoteFeed.PriceBoard
import QuoteFeed.Settings
import QuoteFeed.Watchlist

/-!
The client of a feed: its state, and how it sends and gives up links.

A link is *current* from the moment it is made until it is retired. Each attempt and each retirement
takes a new number, and reports to any other number than the present one count for nothing.
-/

namespace QuoteFeed

inductive Phase where
  | idle
  | connecting
  | connected
  | disconnected
  | reconnectScheduled
deriving DecidableEq

namespace Phase

def all : List Phase := [idle, connecting, connected, disconnected, reconnectScheduled]

def name : Phase → Octets
  | idle => octets "idle"
  | connecting => octets "connecting"
  | connected => octets "connected"
  | disconnected => octets "disconnected"
  | reconnectScheduled => octets "reconnect_scheduled"

/-- The name of the phase at a place in the order; no phase is called by a question mark. -/
def nameAt (index : Nat) : Octets := (all[index]?).elim (octets "?") name

end Phase

structure Client where
  settings : Settings
  endpoint : Endpoint
  phase : Phase := .idle
  board : PriceBoard
  watchlist : Watchlist := {}
  backoff : Backoff
  heartbeat : Heartbeat := {}
  link : Option Nat := none
  /-- The number that reports have to carry. -/
  attempt : Nat := 0
  /-- The number that the wait for a reconnect has to carry. -/
  waitNumber : Nat := 0
  /-- The delay of the last reconnect, until a link opens. -/
  lastDelay : Option Int := none
  /-- Whether the client has been taken down. -/
  gone : Bool := false
deriving DecidableEq

/-- Something that a client does or hears. -/
inductive Deed where
  /-- A report to the present attempt is acted on. -/
  | hears (report : Report)
  | connects
  | disconnects
  | asks
  | dials (link : Nat)
  /-- The next frame of a replay is turned to. -/
  | replays (frame : Octets)
  | sends (link : Nat) (frame : Octets)
  | closes (link : Nat)
  | measures (name : Octets) (value : Binary64)
  | publishes (event : Event)
deriving DecidableEq

/-- A deed, with the client and the clock as they were when it was done. -/
structure Moment where
  client : Client
  clock : Clock
  deed : Deed
deriving DecidableEq

/-- A client with its clock, the world outside, the wall clock at the clock's zero, and what the
client has done so far, the last deed first. -/
structure World (τ : Type) where
  client : Client
  clock : Clock := {}
  outside : τ
  epoch : Instant
  history : List Moment := []

namespace Client

/-- Why there is no client. -/
inductive Error where
  | settings (error : Settings.Error)
  | noFactory
deriving DecidableEq

def Error.message : Error → Octets
  | settings e => e.message
  | noFactory => octets "MarketDataCore requires a transport factory"

/-- A client with some settings, which goes to some address. -/
def ofSettings (settings : Settings) (endpoint : Endpoint) : Client where
  settings := settings
  endpoint := endpoint
  board := { staleLimit := settings.staleLimit, moveLimit := settings.moveLimit }
  backoff := { base := settings.reconnectBase, max := settings.reconnectMax }

/-- A client with some settings, if they can be used and links can be made. -/
def create (settings : Settings) (hasFactory : Bool) : Except Error Client := do
  let endpoint ← settings.endpoint.mapError .settings
  if !hasFactory then throw .noFactory
  pure (ofSettings settings endpoint)

variable {β τ : Type}

def current : Step (Stage β (World τ)) Client := do pure (← get).rest.client

def change (f : Client → Client) : Step (Stage β (World τ)) Unit :=
  modify fun s => { s with rest.client := f s.rest.client }

/-- Changes the client's heartbeat together with the clock. -/
def changeHeartbeat (f : Heartbeat → Clock → Heartbeat × Clock) : Step (Stage β (World τ)) Unit :=
  modify fun s =>
    let (heartbeat, clock) := f s.rest.client.heartbeat s.rest.clock
    { s with rest.client.heartbeat := heartbeat, rest.clock := clock }

def changeClock (f : Clock → Clock) : Step (Stage β (World τ)) Unit :=
  modify fun s => { s with rest.clock := f s.rest.clock }

def remember (deed : Deed) : Step (Stage β (World τ)) Unit :=
  modify fun s => { s with rest.history := ⟨s.rest.client, s.rest.clock, deed⟩ :: s.rest.history }

def outside {α : Type} (deed : Deed) (effect : Effect τ α) : Step (Stage β (World τ)) α := do
  remember deed
  let s ← get
  let (a, entries, t) := effect s.rest.outside
  set { s with rest.outside := t, journal := entries.reverse ++ s.journal }
  pure a

def changeOutside (f : τ → τ) : Step (Stage β (World τ)) Unit :=
  modify fun s => { s with rest.outside := f s.rest.outside }

def wallClock : Step (Stage β (World τ)) Instant := do
  let s ← get
  pure (s.rest.epoch.after s.rest.clock.now)

variable (net : Network τ) (emit : Event → Step (Stage β (World τ)) Unit)

def measure (name : Octets) (value : Binary64) : Step (Stage β (World τ)) Unit :=
  outside (.measures name value) (net.sample name value)

def tell (event : Event) : Step (Stage β (World τ)) Unit := do
  remember (.publishes event)
  emit event

/-- Gives up the current link, and has it closed or leaves that to it. -/
def retire (closing : Bool) : Step (Stage β (World τ)) Unit := do
  match (← current).link with
  | none => pure ()
  | some link =>
    change fun c => { c with link := none, attempt := c.attempt + 1 }
    changeOutside (net.detach link)
    if closing then
      Step.recover (do Step.raise (← outside (.closes link) (net.close link))) fun _ => pure ()

/-- Sends a frame over the current link, if there is one; a failure is published. -/
def send (frame : Octets) : Step (Stage β (World τ)) Unit := do
  match (← current).link with
  | none => pure ()
  | some link =>
    Step.recover (do Step.raise (← outside (.sends link frame) (net.send link frame))) fun e =>
      tell emit (.error (octets "send failed: " ++ e.message))

/-- Sends a frame that has first to be written. -/
def sendWritten (frame : Except Json.Error Octets) : Step (Stage β (World τ)) Unit := do
  send net emit (← Step.ofExcept (frame.mapError .document))

/-- Adds an instrument, and asks for it if a link is open. -/
def subscribe (id : Octets) : Step (Stage β (World τ)) Unit := do
  let (isNew, watchlist) := (← current).watchlist.add id
  if isNew then
    change fun c => { c with watchlist }
    if (← current).phase = .connected then sendWritten net emit (Watchlist.subscribeFrame id)

/-- Removes an instrument, and gives it up if a link is open. Its name is read again for the frame. -/
def unsubscribe (name : Naming) : Step (Stage β (World τ)) Unit := do
  let (wasThere, watchlist) := (← current).watchlist.withdraw name
  if wasThere then
    change fun c => { c with watchlist }
    let c ← current
    if c.phase = .connected then sendWritten net emit (Watchlist.unsubscribeFrame (name.read c.watchlist))

/-- The last quote of an instrument. -/
def last? (id : Octets) : Step (Stage β (World τ)) (Option Quote) := do pure ((← current).board.last? id)

/-- Whether an instrument has been silent for longer than some milliseconds. -/
def isStale (id : Octets) (maxAge : Int) : Step (Stage β (World τ)) Bool := do
  pure ((← current).board.isStale id maxAge (← wallClock))

end Client

end QuoteFeed
