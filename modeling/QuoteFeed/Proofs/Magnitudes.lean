import QuoteFeed.Binary64
import Mathlib.Order.Monotone.Basic
import Mathlib.Tactic.Linarith
import Mathlib.Tactic.Ring

/-!
The magnitudes of floating-point numbers in the order of their ranks, and the integer that is nearest to a number.
-/

namespace QuoteFeed

namespace Binary64

theorem units_of_lt {rank : Nat} (h : rank < binade) : units rank = rank := if_pos h

/-- The magnitudes of a binade are equally far apart. -/
theorem units_of_binade {q r : Nat} (hr : r < binade) : units ((q + 1) * binade + r) = (binade + r) * twoTo q := by
  have hpos : 0 < binade := by decide
  have hle : binade ≤ (q + 1) * binade := Nat.le_mul_of_pos_left _ (Nat.succ_pos q)
  have hlow : ¬(q + 1) * binade + r < binade := by omega
  have hdiv : ((q + 1) * binade + r) / binade = q + 1 := by
    rw [Nat.mul_comm, Nat.mul_add_div hpos, Nat.div_eq_of_lt hr, Nat.add_zero]
  have hmod : ((q + 1) * binade + r) % binade = r := by
    rw [Nat.mul_comm, Nat.mul_add_mod, Nat.mod_eq_of_lt hr]
  rw [units, if_neg hlow, hdiv, hmod, Nat.add_sub_cancel]

theorem exists_binade {rank : Nat} (h : binade ≤ rank) : ∃ q r, r < binade ∧ rank = (q + 1) * binade + r := by
  have hpos : 0 < binade := by decide
  have hdiv : 1 ≤ rank / binade := (Nat.one_le_div_iff hpos).mpr h
  refine ⟨rank / binade - 1, rank % binade, Nat.mod_lt _ hpos, ?_⟩
  rw [Nat.sub_add_cancel hdiv, Nat.mul_comm]
  exact (Nat.div_add_mod rank binade).symm

theorem units_lt_succ (rank : Nat) : units rank < units (rank + 1) := by
  rcases Nat.lt_or_ge rank binade with hlow | hhigh
  · rw [units_of_lt hlow]
    rcases Nat.lt_or_ge (rank + 1) binade with hnext | hnext
    · rw [units_of_lt hnext]
      omega
    · have hfirst : rank + 1 = (0 + 1) * binade + 0 := by omega
      rw [hfirst, units_of_binade (by decide)]
      change rank < (binade + 0) * 1
      omega
  · obtain ⟨q, r, hr, rfl⟩ := exists_binade hhigh
    have hgap := twoTo_pos q
    rw [units_of_binade hr]
    rcases Nat.lt_or_ge (r + 1) binade with hnext | hnext
    · rw [Nat.add_assoc, units_of_binade hnext]
      exact Nat.mul_lt_mul_of_pos_right (by omega) hgap
    · have hfirst : (q + 1) * binade + r + 1 = (q + 1 + 1) * binade + 0 := by
        rw [Nat.succ_mul (q + 1)]
        omega
      rw [hfirst, units_of_binade (by decide), twoTo_succ, Nat.mul_comm (twoTo q), ← Nat.mul_assoc]
      exact Nat.mul_lt_mul_of_pos_right (by omega) hgap

theorem units_strictMono : StrictMono units := strictMono_nat_of_lt_succ units_lt_succ

/-! ### The nearest integer -/

/-- No integer is nearer to `u / d` than `n`, and none that is as near is further from zero. -/
structure IsNearest (d : Nat) (u n : Int) : Prop where
  near : ∀ k : Int, (u - n * d).natAbs ≤ (u - k * d).natAbs
  away : ∀ k : Int, (u - k * d).natAbs = (u - n * d).natAbs → k.natAbs ≤ n.natAbs

theorem IsNearest.neg {d : Nat} {u n : Int} (h : IsNearest d u n) : IsNearest d (-u) (-n) := by
  have hflip : ∀ k : Int, (-u - k * d).natAbs = (u - -k * d).natAbs := by
    intro k
    rw [Int.neg_mul]
    omega
  constructor
  · intro k
    rw [hflip, hflip, Int.neg_neg]
    exact h.near (-k)
  · intro k hk
    rw [hflip, hflip, Int.neg_neg] at hk
    have haway := h.away (-k) hk
    omega

theorem IsNearest.unique {d : Nat} (hd : 0 < d) {u n m : Int} (hn : IsNearest d u n) (hm : IsNearest d u m) :
    n = m := by
  have hdist : (u - n * d).natAbs = (u - m * d).natAbs := Nat.le_antisymm (hn.near m) (hm.near n)
  have habs : n.natAbs = m.natAbs := Nat.le_antisymm (hm.away n hdist) (hn.away m hdist.symm)
  rcases Int.natAbs_eq_natAbs_iff.mp habs with heq | hopp
  · exact heq
  · -- of two opposite integers neither is nearer to zero than the other, but zero is
    subst hopp
    have hzero := hm.near 0
    rw [Int.neg_mul] at hdist
    rw [Int.zero_mul] at hzero
    have hmul : m * d = 0 := by omega
    rcases Int.mul_eq_zero.mp hmul with hm | hd'
    · omega
    · omega

/-- A number of units that is no less than zero is rounded by adding a half and cutting. -/
theorem isNearest_of_nonneg {d : Nat} (hd : 0 < d) (u : Nat) :
    IsNearest d u ((2 * u + d) / (2 * d) : Nat) := by
  have hsplit := Nat.div_add_mod (2 * u + d) (2 * d)
  have hmod := Nat.mod_lt (2 * u + d) (show 0 < 2 * d by omega)
  generalize (2 * u + d) / (2 * d) = q at hsplit ⊢
  have hrest : 2 * (d * q) + (2 * u + d) % (2 * d) = 2 * u + d := by
    rw [← Nat.mul_assoc]
    exact hsplit
  have hcast : ((d * q : Nat) : Int) = q * d := by
    push_cast
    ring
  -- what is left of the number differs by whole multiples of `d` between integers
  have hstep : ∀ k : Int, k * d = q * d + (k - q) * d := by
    intro k
    ring
  have hmul : ∀ j : Int, j = 0 ∨ (0 < j ∧ (d : Int) ≤ j * d) ∨ (j < 0 ∧ j * d ≤ -(d : Int)) := by
    intro j
    rcases Int.lt_trichotomy j 0 with hneg | hzero | hpos
    · refine .inr (.inr ⟨hneg, ?_⟩)
      nlinarith
    · exact .inl hzero
    · refine .inr (.inl ⟨hpos, ?_⟩)
      nlinarith
  constructor
  · intro k
    rw [hstep k]
    obtain hzero | ⟨-, hpos⟩ | ⟨-, hneg⟩ := hmul (k - q)
    · rw [hzero, Int.zero_mul, Int.add_zero]
    · omega
    · omega
  · intro k hk
    rw [hstep k] at hk
    obtain hzero | ⟨-, hpos⟩ | ⟨hless, hneg⟩ := hmul (k - q)
    · omega
    · omega
    · -- only the integer just below can be as near, and then the number is half-way above zero
      have hnext : (k - q) * d = -1 * d := by omega
      have hk : k - q = -1 := Int.eq_of_mul_eq_mul_right (by omega) hnext
      rcases Nat.eq_zero_or_pos q with hq | hq
      · have hprod : d * q = 0 := by rw [hq, Nat.mul_zero]
        omega
      · omega

theorem unitsOfOne_pos : 0 < unitsOfOne := twoTo_pos 1074

theorem round?_finite (negative : Bool) (rank : Fin rankLimit) : (finite negative rank).round? =
    some (if negative then -(((2 * units rank + unitsOfOne) / (2 * unitsOfOne) : Nat) : Int)
      else ((2 * units rank + unitsOfOne) / (2 * unitsOfOne) : Nat)) := by
  rw [round?]

theorem toUnits_finite (negative : Bool) (rank : Fin rankLimit) :
    (finite negative rank).toUnits = some (if negative then -(units rank : Int) else units rank) := by
  rw [toUnits]

theorem exists_round? {x : Binary64} {u : Int} (hx : x.toUnits = some u) :
    ∃ n, x.round? = some n ∧ IsNearest unitsOfOne u n := by
  cases x with
  | nan => cases hx
  | infinite negative => cases hx
  | finite negative rank =>
    have hnear := isNearest_of_nonneg unitsOfOne_pos (units rank)
    rw [toUnits_finite, Option.some.injEq] at hx
    rw [round?_finite]
    refine ⟨_, rfl, ?_⟩
    rw [← hx]
    cases negative with
    | false =>
      simp only [Bool.false_eq_true, if_false]
      exact hnear
    | true =>
      simp only [if_true]
      exact hnear.neg

/-- What a finite number is rounded to is the integer that is nearest to it. -/
theorem round?_eq_some_iff {x : Binary64} {u n : Int} (hx : x.toUnits = some u) :
    x.round? = some n ↔ IsNearest unitsOfOne u n := by
  obtain ⟨m, hm, hnear⟩ := exists_round? hx
  rw [hm, Option.some.injEq]
  constructor
  · rintro rfl
    exact hnear
  · exact hnear.unique unitsOfOne_pos

theorem IsNearest.natAbs_sub_le {d : Nat} (hd : 0 < d) {u n : Int} (h : IsNearest d u n) :
    (u - n * d).natAbs ≤ d := by
  have hup := h.near (n + 1)
  have hdown := h.near (n - 1)
  rw [Int.add_mul, Int.one_mul] at hup
  rw [Int.sub_mul, Int.one_mul] at hdown
  omega

theorem IsNearest.natAbs_le {d : Nat} (hd : 0 < d) {u n : Int} (h : IsNearest d u n) :
    u.natAbs ≤ (n.natAbs + 1) * d := by
  have hsub := h.natAbs_sub_le hd
  have habs : (n * d).natAbs = n.natAbs * d := Int.natAbs_mul n d
  rw [Nat.succ_mul]
  omega

theorem IsNearest.natAbs_mul_le {d : Nat} (hd : 0 < d) {u n : Int} (h : IsNearest d u n) :
    n.natAbs * d ≤ u.natAbs + d := by
  have hsub := h.natAbs_sub_le hd
  have habs : (n * d).natAbs = n.natAbs * d := Int.natAbs_mul n d
  omega

theorem isNearest_self {d : Nat} (hd : 0 < d) (n : Int) : IsNearest d (n * d) n := by
  constructor
  · intro k
    rw [Int.sub_self]
    exact Nat.zero_le _
  · intro k hk
    have hsame : k * d = n * d := by omega
    rw [Int.eq_of_mul_eq_mul_right (by omega) hsame]

end Binary64

end QuoteFeed
