import QuoteFeed.Event

/-!
The last quote of each instrument, and the signals that a new one gives: data that had gone stale,
and a move beyond the limit. Both limits are exclusive.
-/

namespace QuoteFeed

structure Signals where
  stale : Option StaleSignal := none
  move : Option MoveSignal := none
deriving DecidableEq

/-- The last quotes, with the limits of the signals: a gap in milliseconds and a change in percent. -/
structure PriceBoard where
  staleLimit : Int := 60000
  moveLimit : Binary64 := .ofInt 5
  quotes : List Quote := []
deriving DecidableEq

namespace PriceBoard

/-- The last quote of an instrument. -/
def last? (b : PriceBoard) (market : Octets) : Option Quote := b.quotes.find? fun q => q.market = market

def size (b : PriceBoard) : Nat := b.quotes.length

/-- Puts a quote in the place of the one before it, or at the end. -/
def store (q : Quote) : List Quote → List Quote
  | [] => [q]
  | p :: rest => if p.market = q.market then q :: rest else p :: store q rest

/-- The signal of a gap since the previous quote. -/
def staleSignal? (limit : Int) (previous q : Quote) : Option StaleSignal :=
  let gap := previous.time.millisBetween q.time
  if limit < gap then some { market := q.market, previous := previous.time, gap } else none

def moveSignal? (limit : Binary64) (q : Quote) : Option MoveSignal :=
  if limit.less q.change.abs then
    some { market := q.market, change := q.change, magnitude := q.change.abs, price := q.price }
  else none

/-- The signals of a quote after a previous one. -/
def signals (b : PriceBoard) (q : Quote) : Option Quote → Signals
  | none => {}
  | some previous =>
    { stale := staleSignal? b.staleLimit previous q, move := moveSignal? b.moveLimit q }

/-- Stores a quote, and tells the signals it gives. -/
def update (b : PriceBoard) (q : Quote) : Signals × PriceBoard :=
  (b.signals q (b.last? q.market), { b with quotes := store q b.quotes })

/-- Whether the last quote is older than some milliseconds; an unknown instrument is stale. -/
def isStale (b : PriceBoard) (market : Octets) (maxAge : Int) (now : Instant) : Bool :=
  match b.last? market with
  | none => true
  | some q => maxAge < q.time.millisBetween now

def clear (b : PriceBoard) : PriceBoard := { b with quotes := [] }

end PriceBoard

end QuoteFeed
