import QuoteFeed.Client

/-!
What a client does with the frames it receives: each is counted, decoded and published, prices after
the signals they give, and frames that cannot be decoded as such.
-/

namespace QuoteFeed

namespace Client

variable {β τ : Type} (net : Network τ) (emit : Event → Step (Stage β (World τ)) Unit)

/-- Stores a quote and publishes its signals before it. -/
def receiveQuote (q : Quote) : Step (Stage β (World τ)) Unit := do
  let (signals, board) := (← current).board.update q
  change fun c => { c with board }
  match signals.stale with
  | some s => tell emit (.stalePrice s)
  | none => pure ()
  match signals.move with
  | some m => tell emit (.significantMove m)
  | none => pure ()
  tell emit (.price q)

def receiveMessage : Message → Step (Stage β (World τ)) Unit
  | .price q => receiveQuote emit q
  | .orderBook b => tell emit (.orderBook b)
  | .trade t => tell emit (.trade t)
  | .heartbeat => changeHeartbeat Heartbeat.refresh
  | .unknown type raw => do
    measure net (octets "unknown_message") (.ofInt 1)
    tell emit (.unknownMessage type raw)

def receiveFrame (payload : Octets) : Step (Stage β (World τ)) Unit := do
  measure net (octets "frame_bytes") (.ofInt payload.length)
  match Message.ofFrame (← wallClock) payload with
  | .ok m => receiveMessage net emit m
  | .error e =>
    measure net (octets "parse_error") (.ofInt 1)
    tell emit (.parseError e.message.untilNul payload)

end Client

end QuoteFeed
