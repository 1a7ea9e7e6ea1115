import QuoteFeed.Incoming

/-!
How a client connects: attempts, the opening and closing of links, and reconnects after growing
delays. Consumers may act back on the client whenever something is published, so that each step
after a publication looks again at where the client stands.
-/

namespace QuoteFeed

namespace Client

variable {β τ : Type} (net : Network τ) (emit : Event → Step (Stage β (World τ)) Unit)

/-- Gives up the wait for a reconnect. -/
def cancelReconnect : Step (Stage β (World τ)) Unit := do
  change fun c => { c with waitNumber := c.waitNumber + 1 }
  changeClock fun c => c.cancel .reconnect

/-- Whether no more attempts are allowed. -/
def exhausted (c : Client) : Bool :=
  0 < c.settings.maxAttempts.toNat && c.settings.maxAttempts.toNat ≤ c.backoff.attempts

/-- Plans the next attempt of a disconnected client, or gives up. -/
def scheduleReconnect : Step (Stage β (World τ)) Unit := do
  let c ← current
  if c.phase = .disconnected then
    if c.exhausted then tell emit (.error (octets "reconnect attempts exhausted"))
    else
      let (delay, backoff) := c.backoff.next
      change fun c => { c with backoff, lastDelay := some delay }
      measure net (octets "reconnect_delay_ms") (.ofInt delay)
      change fun c => { c with phase := .reconnectScheduled, waitNumber := c.waitNumber + 1 }
      let number := (← current).waitNumber
      changeClock fun c => c.arm .reconnect number delay

/-- A link opens: the instruments are asked for before the heartbeat starts and the opening is published. -/
def handleOpen : Step (Stage β (World τ)) Unit := do
  if (← current).phase = .connecting then
    change fun c => { c with backoff := c.backoff.reset, lastDelay := none, phase := .connected }
    let frames ← Step.ofExcept ((← current).watchlist.replayFrames.mapError .document)
    frames.forM fun frame => do
      remember (.replays frame)
      send net emit frame
    let interval := (← current).settings.heartbeatInterval
    changeHeartbeat (Heartbeat.start interval)
    tell emit (.connected (← current).endpoint.url)

/-- A link closes: it is given up, and a reconnect is planned unless a consumer has moved the client on. -/
def handleClose : Step (Stage β (World τ)) Unit := do
  let connected := (← current).phase = .connected
  changeHeartbeat Heartbeat.stop
  retire net false
  change fun c => { c with phase := .disconnected }
  tell emit (.disconnected false connected)
  scheduleReconnect net emit

/-- Acts on a report to an attempt, unless it is not the present one. -/
def receive (attempt : Nat) (report : Report) : Step (Stage β (World τ)) Unit := do
  if attempt = (← current).attempt then
    remember (.hears report)
    match report with
    | .opened => handleOpen net emit
    | .closed => handleClose net emit
    | .error text => tell emit (.error text)
    | .frame payload => receiveFrame net emit payload

/-- Acts on a report of a link, if the link reports to an attempt. -/
def receiveFrom (link : Nat) (report : Report) : Step (Stage β (World τ)) Unit := do
  match net.attached? link (← get).rest.outside with
  | some attempt => receive net emit attempt report
  | none => pure ()

def dial (attempt : Nat) : Step (Stage β (World τ)) Unit := do
  match ← Step.ofExcept (← outside .asks net.create) with
  | none => throw .noLink
  | some link =>
    change fun c => { c with link := some link }
    changeOutside (net.attach link attempt)
    let (reports, failure) ← outside (.dials link) (net.dial link (← current).endpoint)
    reports.forM (receiveFrom net emit link)
    Step.raise failure

/-- Undoes an attempt that failed, unless a consumer has moved the client on. -/
def abandon (attempt : Nat) (failure : Failure) : Step (Stage β (World τ)) Unit := do
  tell emit (.error (octets "connect failed: " ++ failure.message))
  let c ← current
  if c.attempt = attempt ∧ c.phase = .connecting then
    retire net true
    change fun c => { c with phase := .disconnected }
    tell emit (.disconnected false false)
    scheduleReconnect net emit

def startAttempt : Step (Stage β (World τ)) Unit := do
  change fun c => { c with phase := .connecting, attempt := c.attempt + 1 }
  let attempt := (← current).attempt
  Step.recover (dial net emit attempt) (abandon net emit attempt)

/-- Connects: at once if a reconnect is waited for, and not at all if a link is there. -/
def connect : Step (Stage β (World τ)) Unit := do
  remember .connects
  match (← current).phase with
  | .connecting | .connected => pure ()
  | .reconnectScheduled => do
    cancelReconnect
    startAttempt net emit
  | .idle | .disconnected => do
    change fun c => { c with backoff := c.backoff.reset }
    startAttempt net emit

def halt : Step (Stage β (World τ)) Unit := do
  cancelReconnect
  changeHeartbeat Heartbeat.stop
  retire net true

/-- Disconnects: instruments and quotes are forgotten, and no reconnect follows. -/
def disconnect : Step (Stage β (World τ)) Unit := do
  let connected := (← current).phase = .connected
  halt net
  change fun c => {
    c with watchlist := .empty, board := c.board.clear, backoff := c.backoff.reset, phase := .idle }
  remember .disconnects
  if connected then tell emit (.disconnected true true)

def takeDown : Step (Stage β (World τ)) Unit := do
  halt net
  change fun c => { c with gone := true }

def fire (w : Wait) : Step (Stage β (World τ)) Unit := do
  let c ← current
  match w.timer with
  | .heartbeat =>
    if c.heartbeat.expects w then
      changeHeartbeat Heartbeat.beat
      sendWritten net emit Message.ping
  | .reconnect => if w.number = c.waitNumber ∧ c.phase = .reconnectScheduled then startAttempt net emit
  | .shutdown => pure ()

def place : ClockIn (Stage β (World τ)) := ⟨fun s => s.rest.clock, fun c s => { s with rest.clock := c }⟩

end Client

end QuoteFeed
