import QuoteFeed.Clock

/-!
The heartbeat: while it runs, a ping is due one interval after it was last put off, and again each
interval after that.
-/

namespace QuoteFeed

/-- Whether the heartbeat runs, its interval in milliseconds, the pings so far, and the number of
the wait it listens to. -/
structure Heartbeat where
  running : Bool := false
  interval : Int := 30000
  pings : Nat := 0
  generation : Nat := 0
deriving DecidableEq

namespace Heartbeat

/-- Has the next ping due in one interval, in place of any other. -/
def arm (h : Heartbeat) (c : Clock) : Heartbeat × Clock :=
  ({ h with generation := h.generation + 1 }, c.arm .heartbeat (h.generation + 1) h.interval)

/-- Starts, or starts again: the first ping is due in one interval. -/
def start (interval : Int) (h : Heartbeat) (c : Clock) : Heartbeat × Clock :=
  arm { h with interval, running := true } c

/-- Puts the next ping off to one interval from now. -/
def refresh (h : Heartbeat) (c : Clock) : Heartbeat × Clock := if h.running then h.arm c else (h, c)

def stop (h : Heartbeat) (c : Clock) : Heartbeat × Clock :=
  if h.running then ({ h with running := false, generation := h.generation + 1 }, c.cancel .heartbeat) else (h, c)

/-- Whether the end of a wait is the time of a ping. -/
def expects (h : Heartbeat) (w : Wait) : Bool := w.number = h.generation && h.running

/-- Counts a ping that is due, and has the next one follow. -/
def beat (h : Heartbeat) (c : Clock) : Heartbeat × Clock := arm { h with pings := h.pings + 1 } c

end Heartbeat

end QuoteFeed
