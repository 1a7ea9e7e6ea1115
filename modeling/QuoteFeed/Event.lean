import QuoteFeed.Binary64
import QuoteFeed.Instant

/-!
What a feed tells its consumers: the state of the connection, market data, the signals drawn from
them, and what could not be understood.
-/

namespace QuoteFeed

/-- The latest price of an instrument. The change is in percent. -/
structure Quote where
  market : Octets
  price : Binary64
  time : Instant
  volume : Binary64
  change : Binary64
deriving DecidableEq

structure Trade where
  market : Octets
  time : Instant
  price : Binary64
  amount : Binary64
deriving DecidableEq

/-- A price and how much is offered or wanted at it. -/
structure Level where
  price : Binary64
  size : Binary64
deriving DecidableEq

/-- A change of the order book of an instrument. -/
structure OrderBook where
  market : Octets
  time : Instant
  bids : List Level
  asks : List Level
deriving DecidableEq

/-- An instrument is heard of again after a gap, in milliseconds, since `previous`. -/
structure StaleSignal where
  market : Octets
  previous : Instant
  gap : Int
deriving DecidableEq

/-- A change of an instrument beyond the limit. -/
structure MoveSignal where
  market : Octets
  change : Binary64
  magnitude : Binary64
  price : Binary64
deriving DecidableEq

inductive Event where
  | connected (url : Octets)
  | disconnected (userInitiated wasConnected : Bool)
  | error (message : Octets)
  | price (quote : Quote)
  | stalePrice (signal : StaleSignal)
  | significantMove (signal : MoveSignal)
  | orderBook (book : OrderBook)
  | trade (trade : Trade)
  | unknownMessage (type raw : Octets)
  | parseError (error raw : Octets)
deriving DecidableEq

/-- The kinds of events. Consumers register for one kind. -/
inductive EventKind where
  | connected
  | disconnected
  | error
  | price
  | stalePrice
  | significantMove
  | orderBook
  | trade
  | unknownMessage
  | parseError
deriving DecidableEq

namespace EventKind

/-- Every kind, in order. -/
def all : List EventKind :=
  [connected, disconnected, error, price, stalePrice, significantMove, orderBook, trade, unknownMessage,
    parseError]

def name : EventKind → Octets
  | connected => octets "connected"
  | disconnected => octets "disconnected"
  | error => octets "error"
  | price => octets "price"
  | stalePrice => octets "stale_price"
  | significantMove => octets "significant_move"
  | orderBook => octets "orderbook"
  | trade => octets "trade"
  | unknownMessage => octets "unknown_message"
  | parseError => octets "parse_error"

/-- The name of the kind at a place in the order; no kind is called by a question mark. -/
def nameAt (index : Nat) : Octets := (all[index]?).elim (octets "?") name

def ofName? (s : Octets) : Option EventKind := all.find? fun k => k.name = s

end EventKind

def Event.kind : Event → EventKind
  | connected _ => .connected
  | disconnected _ _ => .disconnected
  | error _ => .error
  | price _ => .price
  | stalePrice _ => .stalePrice
  | significantMove _ => .significantMove
  | orderBook _ => .orderBook
  | trade _ => .trade
  | unknownMessage _ _ => .unknownMessage
  | parseError _ _ => .parseError

end QuoteFeed
