import QuoteFeed.Step

/-!
Virtual time. Waits are armed under a name for a time, at most one under each name. As time passes
they end in the order of their times, and in the order of arming where these are equal; each sees
its own time as the present. A wait carries a number, by which whoever armed it tells it from those
that it took the place of.

Time itself has no end, but the delays of waits are counted in nanoseconds of 64 bits.
-/

namespace QuoteFeed

inductive Timer where
  | heartbeat
  | reconnect
  | shutdown
deriving DecidableEq

structure Wait where
  timer : Timer
  number : Nat
  due : Int
deriving DecidableEq

/-- The present, in milliseconds, and the armed waits in the order of arming. -/
structure Clock where
  now : Int := 0
  waits : List Wait := []
deriving DecidableEq

namespace Clock

/-- Gives up the wait of a name. -/
def cancel (c : Clock) (timer : Timer) : Clock :=
  { c with waits := c.waits.filter fun w => w.timer ≠ timer }

/-- The longest delay, in milliseconds, that 64 bits of nanoseconds can hold. -/
def reach : Int := 9223372036854

/-- How many milliseconds a wait for some delay lasts, rounded up: the nanoseconds of the delay, as 64 bits hold
them. If these are less than none, the wait is over at once. -/
def lasting (delay : Int) : Int := max 0 ((wrapInt64 (delay * 1000000) + 999999) / 1000000)

/-- Arms a wait for some milliseconds from now, in place of any other of the same name. -/
def arm (c : Clock) (timer : Timer) (number : Nat) (delay : Int) : Clock :=
  { c with waits := (c.cancel timer).waits ++ [{ timer, number, due := c.now + lasting delay }] }

theorem lasting_of_le {delay : Int} (hpos : 0 ≤ delay) (hle : delay ≤ reach) : lasting delay = delay := by
  unfold reach at hle
  have hin : inInt64 (delay * 1000000) = true := by
    rw [inInt64, Bool.and_eq_true, decide_eq_true_eq, decide_eq_true_eq, int64Min, int64Max]
    omega
  rw [lasting, wrapInt64_of_inInt64 hin]
  omega

/-- The wait that ends first. -/
def first? : List Wait → Option Wait
  | [] => none
  | w :: rest =>
    match first? rest with
    | none => some w
    | some v => if v.due < w.due then some v else some w

/-- The wait that ends first, if it ends by some time. -/
def next? (c : Clock) (target : Int) : Option Wait := (first? c.waits).filter fun w => w.due ≤ target

/-- The clock at the end of a wait. -/
def expire (c : Clock) (w : Wait) : Clock := { (c.cancel w.timer) with now := w.due }

end Clock

/-- A way to see and change the clock in a state. -/
structure ClockIn (σ : Type) where
  clock : σ → Clock
  withClock : Clock → σ → σ

namespace ClockIn

variable {σ : Type}

/-- Lets time pass up to a target: waits end in order, and what they start may arm others. A failure
leaves the clock where it happened, and the clock stops early once the run has stopped. -/
def passTo (place : ClockIn σ) (stopped : σ → Bool) (fire : Wait → Step σ Unit) (target : Int) :
    Nat → Step σ Unit
  | 0 => Step.exhausted
  | fuel + 1 => do
    let s ← get
    if stopped s then pure ()
    else match (place.clock s).next? target with
    | none => set (place.withClock { place.clock s with now := target } s)
    | some w => do
      set (place.withClock ((place.clock s).expire w) s)
      fire w
      passTo place stopped fire target fuel

end ClockIn

end QuoteFeed
