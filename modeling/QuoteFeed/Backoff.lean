import QuoteFeed.Digits

/-!
The growing delay between attempts: it doubles with each attempt until it reaches the greatest
delay allowed. Delays are milliseconds in 64 bits.
-/

namespace QuoteFeed

/-- The first and the greatest delay, and the attempts made since the last reset. -/
structure Backoff where
  base : Int
  max : Int
  attempts : Nat := 0
deriving DecidableEq

namespace Backoff

/-- Doubles a delay for each of some attempts, as long as it is below the greatest. -/
def grow (max : Int) : Nat → Int → Int
  | 0, delay => delay
  | n + 1, delay => if delay < max then grow max n (wrapInt64 (2 * delay)) else delay

def peek (b : Backoff) : Int := min (grow b.max b.attempts b.base) b.max

def advance (b : Backoff) : Backoff := { b with attempts := b.attempts + 1 }

/-- The delay before the next attempt, which is counted. -/
def next (b : Backoff) : Int × Backoff := (b.peek, b.advance)

def reset (b : Backoff) : Backoff := { b with attempts := 0 }

end Backoff

end QuoteFeed
