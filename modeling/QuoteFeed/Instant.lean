import QuoteFeed.Digits

/-!
Instants: nanoseconds since 1970 in a signed 64-bit count. Conversions into this range are guarded
by a division, so that no product is formed which would leave it.
-/

namespace QuoteFeed

theorem mul_le_of_le_tdiv {n limit : Int} {w : Nat} (hl : 0 ≤ limit) (hw : 0 < w)
    (h : n ≤ limit.tdiv w) : n * w ≤ limit := by
  rw [Int.tdiv_eq_ediv_of_nonneg hl] at h
  exact (Int.le_ediv_iff_mul_le (by omega)).mp h

theorem le_mul_of_tdiv_le {n limit : Int} {w : Nat} (hl : limit ≤ 0) (hw : 0 < w)
    (h : limit.tdiv w ≤ n) : limit ≤ n * w := by
  have hneg : (-limit).tdiv w = -(limit.tdiv w) := Int.neg_tdiv ..
  have hm : -n ≤ (-limit).tdiv w := by omega
  have := mul_le_of_le_tdiv (by omega : 0 ≤ -limit) hw hm
  rw [Int.neg_mul] at this
  omega

/-- A point in time, in nanoseconds since 1970. -/
structure Instant where
  ns : Int
  low : int64Min ≤ ns := by decide
  high : ns ≤ int64Max := by decide
deriving DecidableEq

namespace Instant

instance : Inhabited Instant := ⟨{ ns := 0 }⟩

/-- The instant of a count of nanoseconds, if 64 bits can hold it. -/
def ofNanos? (ns : Int) : Option Instant :=
  if h : int64Min ≤ ns ∧ ns ≤ int64Max then some { ns, low := h.1, high := h.2 } else none

/-- The instant `n` units of `w` nanoseconds after 1970, if there is one. -/
def ofUnits? (w : Nat) (n : Int) : Option Instant :=
  if h : 0 < w ∧ n ≤ int64Max.tdiv w ∧ int64Min.tdiv w ≤ n then
    some { ns := n * w, low := le_mul_of_tdiv_le (by decide) h.1 h.2.2, high := mul_le_of_le_tdiv (by decide) h.1 h.2.1 }
  else none

/-- The instant of a count of milliseconds, if there is one. -/
def ofMillis? (ms : Int) : Option Instant := ofUnits? 1000000 ms

/-- The whole milliseconds since 1970, cut toward it. -/
def toMillis (t : Instant) : Int := t.ns.tdiv 1000000

/-- The instant of a count of nanoseconds that is taken modulo `2 ^ 64`. -/
def ofWrapped (ns : Int) : Instant where
  ns := wrapInt64 ns
  low := int64Min_le_wrapInt64 ns
  high := wrapInt64_le_int64Max ns

/-- The instant some milliseconds later. -/
def after (t : Instant) (ms : Int) : Instant := ofWrapped (t.ns + ms * 1000000)

/-- The milliseconds from one instant to another, each of them cut first. -/
def millisBetween (start finish : Instant) : Int := finish.toMillis - start.toMillis

end Instant

end QuoteFeed
