import QuoteFeed.Journal

/-!
Connections over the network. A connection asks the network for operations, which stay pending until
they end; whoever ends them also decides how. Cancelled operations end with an error of their own,
and what is to be done later is kept in a queue of tasks.
-/

namespace QuoteFeed

inductive Operation where
  | resolve
  | connect
  | tls
  | handshake
  | read
  | write
  | close
deriving DecidableEq

namespace Operation

def all : List Operation := [resolve, connect, tls, handshake, read, write, close]

def name : Operation → Octets
  | resolve => octets "resolve"
  | connect => octets "connect"
  | tls => octets "tls"
  | handshake => octets "handshake"
  | read => octets "read"
  | write => octets "write"
  | close => octets "close"

def ofName? (s : Octets) : Option Operation := all.find? fun o => o.name = s

/-- The error of an operation that is cancelled. -/
def aborted : Octets := octets "operation_aborted"

/-- The error of reading from a connection that the other side has closed. -/
def ended : Octets := octets "closed"

end Operation

/-- A pending operation of a connection, on one of its streams. -/
structure Pending where
  wire : Nat
  operation : Operation
  stream : Nat
deriving DecidableEq

/-- Something that is to be done later. -/
inductive Task where
  | finish (wire : Nat) (operation : Operation) (error : Option Octets)
  | send (wire : Nat) (frame : Octets)
  | close (wire : Nat)
deriving DecidableEq

structure Wire where
  endpoint : Endpoint := { tls := true, host := [], port := [], target := octets "/" }
  stream : Option Nat := none
  /-- What has been received of the present message. -/
  received : Octets := []
  /-- Frames to be written; the first one may be on its way. -/
  queue : List Octets := []
  isOpen : Bool := false
  closing : Bool := false
  writing : Bool := false
  closed : Bool := false
  attached : Option Nat := none
deriving DecidableEq

instance : Inhabited Wire := ⟨{}⟩

/-- The connections, with what is pending and what is to be done. -/
structure Wires where
  wires : List Wire := []
  pending : List Pending := []
  tasks : List Task := []
  streams : Nat := 0
  serverNameFails : Bool := false
  verifyHostFails : Bool := false
deriving DecidableEq

namespace Wires

def wire (s : Wires) (w : Nat) : Wire := s.wires[w]?.getD {}

def change (w : Nat) (f : Wire → Wire) (s : Wires) : Wires := { s with wires := s.wires.modify w f }

/-- Adds a connection and tells its number. -/
def add (s : Wires) : Nat × Wires := (s.wires.length, { s with wires := s.wires ++ [{}] })

def post (t : Task) (s : Wires) : Wires := { s with tasks := s.tasks ++ [t] }

/-- Starts an operation on the present stream of a connection. -/
def begin (w : Nat) (operation : Operation) (s : Wires) : Wires :=
  { s with pending := s.pending ++ [{ wire := w, operation, stream := (s.wire w).stream.getD 0 }] }

/-- Cancels the pending operations of a sort, in order of starting. -/
def abort (sort : Pending → Bool) (s : Wires) : Wires :=
  { s with
    pending := s.pending.filter fun p => !sort p
    tasks := s.tasks ++ (s.pending.filter sort).map fun p => .finish p.wire p.operation (some Operation.aborted) }

/-- Cancels the search for a connection's address. -/
def abortResolve (w : Nat) : Wires → Wires := abort fun p => p.wire = w && p.operation = .resolve

def abortStream (stream : Nat) : Wires → Wires :=
  abort fun p => p.stream = stream && p.operation ≠ .resolve

/-- Gives up the stream of a connection. -/
def dropStream (w : Nat) (s : Wires) : Wires :=
  match (s.wire w).stream with
  | none => s
  | some stream => abortStream stream s

def newStream (w : Nat) (s : Wires) : Wires :=
  { s.change w fun x => { x with stream := some (s.streams + 1) } with streams := s.streams + 1 }

/-- Begins a connection anew: the old stream is given up before the new one is made, and the address
is searched for. -/
def connect (w : Nat) (endpoint : Endpoint) (s : Wires) : Unit × List Entry × Wires :=
  let reset (x : Wire) : Wire := { endpoint, stream := x.stream, attached := x.attached }
  ((), [.call (.stream endpoint.tls), .call (.resolve endpoint.host endpoint.port)],
    (((s.dropStream w).change w reset).newStream w).begin w .resolve)

/-- The oldest pending operation of a kind, and the others. -/
def takePending (operation : Operation) : List Pending → Option (Pending × List Pending)
  | [] => none
  | p :: rest =>
    if p.operation = operation then some (p, rest)
    else (takePending operation rest).map fun (q, others) => (q, p :: others)

/-- Ends the oldest pending operation of a kind, and tells whose it was. Data that has been read
ends up with the connection, whatever else happens. -/
def complete (operation : Operation) (data : Octets) (s : Wires) : Option (Nat × Wires) := do
  let (p, pending) ← takePending operation s.pending
  let rest : Wires := { s with pending }
  if operation = .read then
    pure (p.wire, rest.change p.wire fun x => { x with received := x.received ++ data })
  else pure (p.wire, rest)

end Wires

end QuoteFeed
