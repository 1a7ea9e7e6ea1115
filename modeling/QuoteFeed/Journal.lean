import QuoteFeed.Call
import QuoteFeed.Endpoint
import QuoteFeed.Event
import QuoteFeed.LogLevel

/-!
What a run shows: one entry for everything that is told to a consumer, asked of a link or the
network, measured, printed or logged.
-/

namespace QuoteFeed

/-- Something that a run shows. Links are known by number. -/
inductive Entry where
  | event (event : Event)
  /-- An event reaches the handler of a number. -/
  | handled (handler : Nat) (event : Event)
  | sample (name : Octets) (value : Binary64)
  | makeLink
  | connectLink (link : Nat) (endpoint : Endpoint)
  | sendLink (link : Nat) (frame : Octets)
  | closeLink (link : Nat)
  | call (call : Call)
  | status (up : Bool)
  | message (payload : Octets)
  | error (text : Octets)
  | output (text : Octets)
  | log (level : LogLevel) (text : Octets)
  /-- A ping is due at a time. -/
  | ping (now : Int)
  | nothingPending
deriving DecidableEq

end QuoteFeed
