import QuoteFeed.DecimalText
import QuoteFeed.Event

/-!
Events as the program prints them. Unknown and faulty frames are not printed.
-/

namespace QuoteFeed

namespace Printing

def line (s : Octets) : List Octets := [s ++ octets "\n"]

def quote (q : Quote) : Octets :=
  octets "price " ++ q.market ++ octets " " ++ q.price.plainText ++ octets " vol24h=" ++ q.volume.plainText
    ++ octets " chg=" ++ q.change.changeText ++ octets "% ts=" ++ decimalInt q.time.toMillis

def trade (t : Trade) : Octets :=
  octets "trade " ++ t.market ++ octets " " ++ t.amount.plainText ++ octets "@" ++ t.price.plainText

/-- The best level of a side, if the side has one. -/
def best (label : Octets) (levels : List Level) : List Octets :=
  match levels with
  | [] => []
  | l :: _ => [octets " " ++ label ++ octets "=" ++ l.price.plainText]

def orderBook (b : OrderBook) : List Octets :=
  [octets "book " ++ b.market ++ octets " bids=" ++ decimal b.bids.length ++ octets " asks=" ++ decimal b.asks.length]
    ++ best (octets "best_bid") b.bids ++ best (octets "best_ask") b.asks ++ [octets "\n"]

/-- The pieces of text that are printed for an event. -/
def event : Event → List Octets
  | .connected url => line (octets "connected " ++ url)
  | .disconnected user _ => line (octets "disconnected" ++ if user then octets " (user)" else [])
  | .error message => line (octets "error " ++ message)
  | .price q => line (quote q)
  | .trade t => line (trade t)
  | .orderBook b => orderBook b
  | .stalePrice s => line (octets "STALE " ++ s.market ++ octets " gap=" ++ decimalInt s.gap ++ octets "ms")
  | .significantMove m =>
    line (octets "MOVE " ++ m.market ++ octets " " ++ m.change.changeText ++ octets "% -> " ++ m.price.plainText)
  | .unknownMessage _ _ | .parseError _ _ => []

end Printing

end QuoteFeed
