import QuoteFeed.Link
import QuoteFeed.Wire

/-!
What a connection does as its operations end. It searches for the address, connects, secures the
stream if it has to, shakes hands, and then reads all the time and writes one frame after another.
The first error ends it. Its close is reported once.
-/

namespace QuoteFeed

/-- A state with connections in it, and a journal. -/
class HasWires (σ : Type) where
  wires : σ → Wires
  withWires : Wires → σ → σ
  note : Entry → σ → σ

namespace Exchange

variable {σ : Type} [HasWires σ]

def wire (w : Nat) : Step σ Wire := do pure ((HasWires.wires (← get)).wire w)

def changeAll (f : Wires → Wires) : Step σ Unit :=
  modify fun s => HasWires.withWires (f (HasWires.wires s)) s

def change (w : Nat) (f : Wire → Wire) : Step σ Unit := changeAll (Wires.change w f)

/-- Makes a call that is done at once. -/
def call (c : Call) : Step σ Unit := modify (HasWires.note (.call c))

/-- Makes a call that starts an operation. -/
def begin (w : Nat) (c : Call) (operation : Operation) : Step σ Unit := do
  call c
  changeAll (Wires.begin w operation)

/-- Does something on the stream of a connection, if it has one. -/
def onStream (w : Nat) (f : Nat → Step σ Unit) : Step σ Unit := do
  match (← wire w).stream with
  | some stream => f stream
  | none => pure ()

def startRead (w : Nat) : Step σ Unit := onStream w fun _ => begin w .read .read

/-- Writes the first frame of the queue, if there is one. -/
def startWrite (w : Nat) : Step σ Unit := do
  match (← wire w).queue with
  | [] => pure ()
  | frame :: _ =>
    change w fun x => { x with writing := true }
    onStream w fun _ => begin w (.write frame) .write

def startClose (w : Nat) : Step σ Unit := onStream w fun _ => begin w .close .close

/-- Closes a connection. One that is not open yet gives up what is pending; frames that are not on
their way are dropped. -/
def close (w : Nat) : Step σ Unit := do
  let x ← wire w
  if !x.closed && !x.closing then
    change w fun x => { x with closing := true }
    if !x.isOpen then
      call .resolverCancel
      changeAll (Wires.abortResolve w)
      onStream w fun stream => do
        call .cancel
        changeAll (Wires.abortStream stream)
    else
      change w fun x => { x with queue := x.queue.take (if x.writing then 1 else 0) }
      if !x.writing then startClose w

/-- Accepts a frame, unless the connection is on its way to an end. -/
def send (w : Nat) (frame : Octets) : Step σ Unit := do
  let x ← wire w
  if !x.closed && !x.closing then
    change w fun x => { x with queue := x.queue ++ [frame] }
    if x.isOpen && !x.writing then startWrite w

variable (notify : Nat → Report → Step σ Unit)

/-- Reports to whom the connection is attached. -/
def report (w : Nat) (r : Report) : Step σ Unit := do
  match (← wire w).attached with
  | some receiver => notify receiver r
  | none => pure ()

def reportClosed (w : Nat) : Step σ Unit := do
  if !(← wire w).closed then
    change w fun x => { x with closed := true, isOpen := false, queue := [] }
    onStream w fun stream => do
      call .socketClose
      changeAll (Wires.abortStream stream)
    report notify w .closed

/-- Ends a connection on an error, which is reported unless it is of the connection's own making. -/
def fail (w : Nat) (what error : Octets) : Step σ Unit := do
  let x ← wire w
  if !x.closed then
    if error ≠ Operation.aborted ∧ !x.closing then report notify w (.error (what ++ octets ": " ++ error))
    reportClosed notify w

def startHandshake (w : Nat) : Step σ Unit := do
  let e := (← wire w).endpoint
  onStream w fun _ => do
    call .expiresNever
    call .clientTimeouts
    call .textFrames
    begin w (.handshake e.host e.target) .handshake

/-- The error of a security setting that cannot be made. -/
def securityError : Octets := octets "ssl:42"

/-- Secures the stream: the name and the certificate of the other side are settled first. -/
def startTls (w : Nat) : Step σ Unit := do
  let host := (← wire w).endpoint.host.untilNul
  call (.serverName host)
  if (HasWires.wires (← get)).serverNameFails then fail notify w (octets "sni") securityError
  else
    call (.verifyHost host)
    if (HasWires.wires (← get)).verifyHostFails then
      fail notify w (octets "host verification setup") securityError
    else
      call .verifyPeer
      begin w .tlsHandshake .tls

def afterResolve (w : Nat) : Step σ Unit := onStream w fun _ => do
  call (.expiresAfter 30000)
  begin w .connect .connect

def afterConnect (w : Nat) : Step σ Unit := do
  if (← wire w).endpoint.tls then startTls notify w else startHandshake w

/-- The other side has shaken hands: the connection is open, unless it is to be closed. -/
def afterHandshake (w : Nat) : Step σ Unit := do
  if (← wire w).closing then startClose w
  else
    change w fun x => { x with isOpen := true }
    report notify w .opened
    startRead w
    let x ← wire w
    if !x.queue.isEmpty && !x.writing && !x.closing then startWrite w

def afterRead (w : Nat) : Step σ Unit := do
  let payload := (← wire w).received
  change w fun x => { x with received := [] }
  report notify w (.frame payload)
  if !(← wire w).closed then startRead w

def afterWrite (w : Nat) : Step σ Unit := do
  change w fun x => { x with queue := x.queue.drop 1 }
  let x ← wire w
  if x.closing then startClose w
  else if !x.queue.isEmpty then startWrite w

/-- What an operation is called when it fails. -/
def what : Operation → Octets
  | .tls => octets "tls handshake"
  | .handshake => octets "websocket handshake"
  | operation => operation.name

/-- An operation has ended, with or without an error. -/
def finish (w : Nat) (operation : Operation) (error : Option Octets) : Step σ Unit := do
  if operation = .write then change w fun x => { x with writing := false }
  match operation, error with
  | .close, _ => reportClosed notify w
  | .read, some e => if e = Operation.ended then reportClosed notify w else fail notify w (what .read) e
  | operation, some e => fail notify w (what operation) e
  | .resolve, none => afterResolve w
  | .connect, none => afterConnect notify w
  | .tls, none => startHandshake w
  | .handshake, none => afterHandshake notify w
  | .read, none => afterRead notify w
  | .write, none => afterWrite w

def perform : Task → Step σ Unit
  | .finish w operation error => finish notify w operation error
  | .send w frame => send w frame
  | .close w => close w

def poll : Nat → Step σ Unit
  | 0 => Step.exhausted
  | fuel + 1 => do
    let s := HasWires.wires (← get)
    match s.tasks with
    | [] => pure ()
    | t :: rest =>
      changeAll fun s => { s with tasks := rest }
      perform notify t
      poll fuel

/-- Ends the oldest pending operation of a kind, now or as a task, and tells whether there was one. -/
def complete (operation : Operation) (error : Option Octets) (data : Octets) (later : Bool) : Step σ Bool := do
  match (HasWires.wires (← get)).complete operation data with
  | none => pure false
  | some (w, s) =>
    changeAll fun _ => s
    if later then changeAll (Wires.post (.finish w operation error)) else finish notify w operation error
    pure true

end Exchange

end QuoteFeed
