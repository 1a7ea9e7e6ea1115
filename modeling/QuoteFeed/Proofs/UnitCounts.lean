import QuoteFeed.Proofs.Ages
import QuoteFeed.Proofs.Within64

/-!
Instants by counts of units. A count is compared with limits that are cut to whole units themselves; the cut goes
toward 1970 at both ends of the range and takes off no count that could be kept. So a count names an instant just in
case 64 bits hold its nanoseconds, whatever the unit.
-/

namespace QuoteFeed

namespace Instant

variable {w : Nat} {n : Int} {t : Instant}

theorem ofNanos?_eq_some_iff {i : Int} : ofNanos? i = some t ↔ t.ns = i := by
  constructor
  · intro h
    unfold ofNanos? at h
    split at h
    next => cases h; rfl
    next => cases h
  · rintro rfl
    exact ofNanos?_eq_some t.low t.high

/-- A count names the instant that lies so many units after 1970, and no other one. -/
theorem ofUnits?_eq_some_iff (hw : 0 < w) : ofUnits? w n = some t ↔ t.ns = n * w := by
  rw [ofUnits?_eq hw, ofNanos?_eq_some_iff]

theorem isSome_ofUnits?_iff (hw : 0 < w) : (ofUnits? w n).isSome = true ↔ inInt64 (n * w) = true := by
  rw [ofUnits?_eq hw, ofNanos?, inInt64, Bool.and_eq_true, decide_eq_true_eq, decide_eq_true_eq]
  split
  next h => exact ⟨fun _ => h, fun _ => rfl⟩
  next h => exact ⟨fun hsome => absurd hsome Bool.noConfusion, fun hin => absurd hin h⟩

theorem isSome_ofMillis?_iff : (ofMillis? n).isSome = true ↔ n.natAbs ≤ 9223372036854 := by
  rw [ofMillis?, isSome_ofUnits?_iff (by decide), inInt64, Bool.and_eq_true, decide_eq_true_eq, decide_eq_true_eq]
  simp only [int64Min, int64Max]
  omega

/-- A whole number of milliseconds loses nothing when it is cut. -/
theorem toMillis_of_ofMillis? (h : ofMillis? n = some t) : t.toMillis = n := by
  have hns : t.ns = n * 1000000 := (ofUnits?_eq_some_iff (by decide)).mp h
  have ht := toMillis_cases t
  omega

/-- A time lies less than a millisecond before another one, counted away from 1970 on either side of it. -/
def JustShortOf (cut t : Instant) : Prop :=
  0 ≤ cut.ns ∧ cut.ns ≤ t.ns ∧ t.ns < cut.ns + 1000000 ∨ cut.ns ≤ 0 ∧ t.ns ≤ cut.ns ∧ cut.ns - 1000000 < t.ns

/-- What is left of an instant in whole milliseconds is an instant again: the cut never leads out of the range. -/
theorem ofMillis?_toMillis (t : Instant) : ∃ cut, ofMillis? t.toMillis = some cut ∧ cut.JustShortOf t := by
  have hbounds := toMillis_bounds t
  obtain ⟨cut, hcut⟩ := Option.isSome_iff_exists.mp (isSome_ofMillis?_iff.mpr (by omega : t.toMillis.natAbs ≤ _))
  have hns : cut.ns = t.toMillis * 1000000 := (ofUnits?_eq_some_iff (by decide)).mp hcut
  have ht := toMillis_cases t
  refine ⟨cut, hcut, ?_⟩
  unfold JustShortOf
  omega

/-- A count of units of any size names an instant just in case 64 bits hold its nanoseconds, and then it is the
one with these nanoseconds; the product is formed behind the guard only, so that it never overflows. Milliseconds
name instants up to `9223372036854` of them on either side of 1970, and are read back as they were; an instant that
is cut to milliseconds names one that is less than a millisecond from it, toward 1970. -/
theorem unit_counts_exact (hw : 0 < w) (n : Int) :
    ((ofUnits? w n).isSome = true ↔ inInt64 (n * w) = true) ∧ (∀ t, ofUnits? w n = some t ↔ t.ns = n * w) ∧
    Within64.units w n = some (ofUnits? w n) ∧
    ((ofMillis? n).isSome = true ↔ n.natAbs ≤ 9223372036854) ∧ (∀ t, ofMillis? n = some t → t.toMillis = n) ∧
    ∀ t : Instant, ∃ cut, ofMillis? t.toMillis = some cut ∧ cut.JustShortOf t :=
  ⟨isSome_ofUnits?_iff hw, fun _ => ofUnits?_eq_some_iff hw, Within64.units_eq hw n, isSome_ofMillis?_iff,
    fun _ => toMillis_of_ofMillis?, ofMillis?_toMillis⟩

/-- The last hour that can be named before 1970, and the first one that cannot be named after it. -/
theorem outermost_hours : 0 < 3600000000000 ∧ (ofUnits? 3600000000000 (-2562047)).isSome = true ∧
    (ofUnits? 3600000000000 2562048).isSome = false := by
  obtain ⟨hlast, -⟩ := unit_counts_exact (w := 3600000000000) (by decide) (-2562047)
  obtain ⟨hfirst, -⟩ := unit_counts_exact (w := 3600000000000) (by decide) 2562048
  refine ⟨by decide, hlast.mpr (by decide), Bool.eq_false_iff.mpr fun hsome => ?_⟩
  exact absurd (hfirst.mp hsome) (by decide)

end Instant

end QuoteFeed
