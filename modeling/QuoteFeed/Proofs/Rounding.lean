import QuoteFeed.Proofs.Magnitudes
import QuoteFeed.Proofs.Numerals
import Mathlib.Algebra.Order.Field.Power
import Mathlib.Data.Rat.Cast.Order
import Mathlib.Tactic.FieldSimp
import Mathlib.Tactic.NormNum

/-!
Rounding. A rational number of units goes to the rank between whose half-way points it lies, and from a half-way
point to the even rank. The model rounds ratios and decimal numbers in this way, also where it settles them by
counting digits.
-/

namespace QuoteFeed

theorem cast_twoTo (n : Nat) : (twoTo n : ℚ) = 2 ^ n := by
  simp [twoTo]

theorem cast_tenTo (n : Nat) : (tenTo n : ℚ) = 10 ^ n := by
  simp [tenTo]

/-- A positive number has no more digits than it needs. -/
theorem pow_length_decimal_le {n : Nat} (hn : 0 < n) : 10 ^ (decimal n).length ≤ 10 * n := by
  induction n using Nat.strong_induction_on with
  | _ n ih =>
    rw [decimal_eq]
    split
    next => rw [List.length_singleton]; omega
    next hten =>
      have hfront := ih (n / 10) (by omega) (by omega)
      rw [List.length_append, List.length_singleton, pow_succ]
      omega

namespace Binary64

variable {u : ℚ} {rank : Nat}

/-- The point half-way between the magnitude of a rank and the next one, in units. -/
def halfway (rank : Nat) : ℚ := (units rank + units (rank + 1)) / 2

/-- A number of units rounds to a rank: it lies between the half-way points on either side of its magnitude, and
on one of these only if the rank is even. -/
structure Rounds (u : ℚ) (rank : Nat) : Prop where
  below : u < halfway rank ∨ u = halfway rank ∧ rank % 2 = 0
  above : ∀ r, r + 1 = rank → halfway r < u ∨ halfway r = u ∧ rank % 2 = 0

theorem units_lt_halfway (rank : Nat) : (units rank : ℚ) < halfway rank := by
  have hlt : (units rank : ℚ) < units (rank + 1) := by exact_mod_cast units_lt_succ rank
  rw [halfway]
  linarith

theorem halfway_lt_units (rank : Nat) : halfway rank < units (rank + 1) := by
  have hlt : (units rank : ℚ) < units (rank + 1) := by exact_mod_cast units_lt_succ rank
  rw [halfway]
  linarith

theorem halfway_strictMono : StrictMono halfway :=
  strictMono_nat_of_lt_succ fun rank => (halfway_lt_units rank).trans (units_lt_halfway (rank + 1))

namespace Rounds

variable (h : Rounds u rank)
include h

theorem le_halfway : u ≤ halfway rank := by
  rcases h.below with hlt | ⟨heq, -⟩
  · exact hlt.le
  · exact heq.le

theorem halfway_le {r : Nat} (hr : r + 1 = rank) : halfway r ≤ u := by
  rcases h.above r hr with hlt | ⟨heq, -⟩
  · exact hlt.le
  · exact heq.le

/-- The half-way points cut the numbers of units where the ranks are cut. -/
theorem le_iff (k : Nat) : rank ≤ k ↔ u < halfway k ∨ u = halfway k ∧ k % 2 = 0 := by
  constructor
  · intro hk
    rcases Nat.eq_or_lt_of_le hk with rfl | hlt
    · exact h.below
    · exact .inl (h.le_halfway.trans_lt (halfway_strictMono hlt))
  · intro hu
    by_contra hk
    obtain ⟨r, rfl⟩ : ∃ r, rank = r + 1 := ⟨rank - 1, by omega⟩
    have hkr : halfway k ≤ halfway r := halfway_strictMono.monotone (by omega)
    rcases h.above r rfl with hlow | ⟨hlow, heven⟩
    · rcases hu with hu | ⟨hu, -⟩ <;> linarith
    · rcases hu with hu | ⟨hu, hodd⟩
      · linarith
      · -- on the half-way point above `k` both `k` and the rank behind it would be even
        have hr : k = r := halfway_strictMono.injective (by linarith)
        omega

theorem pos (hrank : rank ≠ 0) : 0 < u := by
  obtain ⟨r, rfl⟩ : ∃ r, rank = r + 1 := ⟨rank - 1, by omega⟩
  exact (Nat.cast_nonneg _).trans_lt ((units_lt_halfway r).trans_le (h.halfway_le rfl))

theorem unique {k : Nat} (hk : Rounds u k) : rank = k :=
  Nat.le_antisymm ((h.le_iff k).mpr hk.below) ((hk.le_iff rank).mpr h.below)

/-- Every other magnitude is further away, or as far, and then the rank is the even one. -/
theorem nearest {k : Nat} (hk : k ≠ rank) :
    |u - units rank| < |u - units k| ∨ |u - units rank| = |u - units k| ∧ rank % 2 = 0 := by
  rcases Nat.lt_or_gt_of_ne hk with hlt | hgt
  · obtain ⟨r, rfl⟩ : ∃ r, rank = r + 1 := ⟨rank - 1, by omega⟩
    have hkr : (units k : ℚ) ≤ units r := by exact_mod_cast units_strictMono.monotone (Nat.le_of_lt_succ hlt)
    have hstep : (units r : ℚ) < units (r + 1) := by exact_mod_cast units_lt_succ r
    have hmid : 2 * halfway r = units r + units (r + 1) := by
      rw [halfway]
      ring
    have hlow : units r < u := (units_lt_halfway r).trans_le (h.halfway_le rfl)
    have hdist : |u - units k| = u - units k := abs_of_nonneg (by linarith)
    rcases h.above r rfl with hin | ⟨hon, heven⟩
    · left
      rw [hdist, abs_lt]
      constructor <;> linarith
    · rw [hdist]
      refine (lt_or_eq_of_le (abs_le.mpr ?_)).imp_right fun heq => ⟨heq, heven⟩
      constructor <;> linarith
  · have hkr : (units (rank + 1) : ℚ) ≤ units k := by exact_mod_cast units_strictMono.monotone hgt
    have hstep : (units rank : ℚ) < units (rank + 1) := by exact_mod_cast units_lt_succ rank
    have hmid : 2 * halfway rank = units rank + units (rank + 1) := by
      rw [halfway]
      ring
    have hhigh : u < units (rank + 1) := h.le_halfway.trans_lt (halfway_lt_units rank)
    have hdist : |u - units k| = units k - u := by
      rw [abs_sub_comm]
      exact abs_of_nonneg (by linarith)
    rcases h.below with hin | ⟨hon, heven⟩
    · left
      rw [hdist, abs_lt]
      constructor <;> linarith
    · rw [hdist]
      refine (lt_or_eq_of_le (abs_le.mpr ?_)).imp_right fun heq => ⟨heq, heven⟩
      constructor <;> linarith

end Rounds

/-! ### Ratios -/

/-- What is left over decides between the two integers beside a ratio. -/
theorem nearest_spec (num : Nat) {den : Nat} (hden : 0 < den) :
    (2 * num < (2 * nearest num den + 1) * den ∨
      2 * num = (2 * nearest num den + 1) * den ∧ nearest num den % 2 = 0) ∧
    (2 * nearest num den * den < 2 * num + den ∨
      2 * nearest num den * den = 2 * num + den ∧ nearest num den % 2 = 0) := by
  have hsplit := Nat.div_add_mod num den
  have hrest := Nat.mod_lt num hden
  have hexpand : ∀ n, (2 * n + 1) * den = 2 * n * den + den := fun n => by ring
  have hquotient : 2 * (num / den) * den = 2 * (den * (num / den)) := by ring
  have hnext : 2 * (num / den + 1) * den = 2 * (den * (num / den)) + 2 * den := by ring
  rw [hexpand]
  unfold nearest
  dsimp only
  split_ifs with hlow hhigh
  · omega
  · omega
  · rcases Nat.mod_two_eq_zero_or_one (num / den) with hparity | hparity
    · rw [hparity, Nat.add_zero]
      omega
    · rw [hparity]
      omega

/-- The same in steps of a power of two. -/
theorem nearest_steps (num : Nat) {den shift n : Nat} (hden : 0 < den) (hn : n = nearest num (den * twoTo shift)) :
    ((num / den : ℚ) < (n + 1 / 2) * 2 ^ shift ∨ (num / den : ℚ) = (n + 1 / 2) * 2 ^ shift ∧ n % 2 = 0) ∧
    ((n - 1 / 2) * 2 ^ shift < (num / den : ℚ) ∨ (n - 1 / 2) * 2 ^ shift = (num / den : ℚ) ∧ n % 2 = 0) := by
  have hden' : (0 : ℚ) < den := by exact_mod_cast hden
  obtain ⟨hbelow, habove⟩ := nearest_spec num (Nat.mul_pos hden (twoTo_pos shift))
  rw [← hn] at hbelow habove
  rw [div_lt_iff₀ hden', div_eq_iff hden'.ne', lt_div_iff₀ hden', eq_div_iff hden'.ne']
  constructor
  · refine hbelow.imp (fun hlt => ?_) fun heq => ⟨?_, heq.2⟩
    · have hcast : (2 * num : ℚ) < (2 * n + 1) * (den * twoTo shift) := by exact_mod_cast hlt
      rw [cast_twoTo] at hcast
      linarith
    · have hcast : (2 * num : ℚ) = (2 * n + 1) * (den * twoTo shift) := by exact_mod_cast heq.1
      rw [cast_twoTo] at hcast
      linarith
  · refine habove.imp (fun hlt => ?_) fun heq => ⟨?_, heq.2⟩
    · have hcast : (2 * n * (den * twoTo shift) : ℚ) < 2 * num + den * twoTo shift := by exact_mod_cast hlt
      rw [cast_twoTo] at hcast
      linarith
    · have hcast : (2 * n * (den * twoTo shift) : ℚ) = 2 * num + den * twoTo shift := by exact_mod_cast heq.1
      rw [cast_twoTo] at hcast
      linarith

/-- The ranks of a binade count its magnitudes, and the first of the next binade too. -/
theorem units_shift {shift n : Nat} (hle : n ≤ 2 * binade) (hlow : shift = 0 ∨ binade ≤ n) :
    units (shift * binade + n) = n * twoTo shift := by
  rcases Nat.lt_or_ge n binade with hsmall | hlarge
  · obtain rfl : shift = 0 := by omega
    rw [Nat.zero_mul, Nat.zero_add, units_of_lt hsmall]
    exact (Nat.mul_one n).symm
  · obtain ⟨r, rfl⟩ := Nat.exists_eq_add_of_le hlarge
    rcases Nat.lt_or_ge r binade with hr | hr
    · rw [← Nat.add_assoc, ← Nat.succ_mul, units_of_binade hr]
    · obtain rfl : r = binade := by omega
      have hrank : shift * binade + (binade + binade) = (shift + 1 + 1) * binade + 0 := by ring
      rw [hrank, units_of_binade (by decide), twoTo_succ]
      ring

theorem halfway_shift {shift n : Nat} (hlt : n < 2 * binade) (hlow : shift = 0 ∨ binade ≤ n) :
    halfway (shift * binade + n) = (n + 1 / 2) * 2 ^ shift := by
  have hnext : units (shift * binade + n + 1) = (n + 1) * twoTo shift := by
    rw [Nat.add_assoc]
    exact units_shift hlt (by omega)
  rw [halfway, units_shift hlt.le hlow, hnext]
  push_cast
  rw [cast_twoTo]
  ring

/-- A ratio in steps of a power of two, of which its nearest integer fills the ranks of one binade. -/
theorem steps_of_nearestRank (num : Nat) {den : Nat} (hden : 0 < den) {shift n : Nat}
    (hshift : shift = Nat.log2 (num / den) - 52) (hn : n = nearest num (den * twoTo shift)) :
    n ≤ 2 * binade ∧ (shift = 0 ∨ binade ≤ n ∧ binade * (den * twoTo shift) ≤ num) := by
  have hstep : 0 < den * twoTo shift := Nat.mul_pos hden (twoTo_pos shift)
  obtain ⟨hbelow, habove⟩ := nearest_spec num hstep
  rw [← hn] at hbelow habove
  have hcount : ∀ k, den * twoTo (shift + k) = twoTo k * (den * twoTo shift) := by
    intro k
    simp only [twoTo, Nat.pow_eq, pow_add]
    ring
  have hlimit : num < 2 * binade * (den * twoTo shift) := by
    have hlog : num / den < twoTo (shift + 53) := by
      refine Nat.lt_log2_self.trans_le ?_
      exact Nat.pow_le_pow_right (by decide) (by omega)
    have hnum := (Nat.div_lt_iff_lt_mul hden).mp hlog
    rw [Nat.mul_comm, hcount] at hnum
    exact hnum
  constructor
  · by_contra hlarge
    have hmul : (4 * binade + 2) * (den * twoTo shift) ≤ 2 * n * (den * twoTo shift) :=
      Nat.mul_le_mul_right _ (by omega)
    have hfour : (4 * binade + 2) * (den * twoTo shift) =
        2 * (2 * binade * (den * twoTo shift)) + 2 * (den * twoTo shift) := by ring
    omega
  · refine (Nat.eq_zero_or_pos shift).imp_right fun hpos => ?_
    have hlog : twoTo (shift + 52) ≤ num / den := by
      have hne : num / den ≠ 0 := by
        intro hzero
        rw [hzero, Nat.log2_zero] at hshift
        omega
      rw [hshift, Nat.sub_add_cancel (by omega)]
      exact Nat.log2_self_le hne
    have hnum := (Nat.le_div_iff_mul_le hden).mp hlog
    rw [Nat.mul_comm, hcount] at hnum
    refine ⟨?_, hnum⟩
    by_contra hsmall
    have hmul : (2 * n + 1 + 1) * (den * twoTo shift) ≤ 2 * binade * (den * twoTo shift) :=
      Nat.mul_le_mul_right _ (by omega)
    have htwo : 2 * binade * (den * twoTo shift) = 2 * (binade * (den * twoTo shift)) := by ring
    have hbinade : twoTo 52 = binade := rfl
    rw [hbinade] at hnum
    rw [Nat.succ_mul] at hmul
    omega

/-- The rank nearest to a ratio is the one that the ratio rounds to. -/
theorem rounds_nearestRank (num : Nat) {den : Nat} (hden : 0 < den) :
    Rounds (num / den : ℚ) (nearestRank num den) := by
  unfold nearestRank
  dsimp only
  obtain ⟨shift, hshift⟩ : ∃ shift, shift = Nat.log2 (num / den) - 52 := ⟨_, rfl⟩
  obtain ⟨n, hn⟩ : ∃ n, n = nearest num (den * twoTo shift) := ⟨_, rfl⟩
  obtain ⟨hle, hlow⟩ := steps_of_nearestRank num hden hshift hn
  obtain ⟨hbelow, habove⟩ := nearest_steps num hden hn
  rw [← hshift, ← hn]
  have hpow : (0 : ℚ) < 2 ^ shift := by positivity
  have hparity : (shift * binade + n) % 2 = n % 2 := by
    simp only [binade]
    omega
  have hlow' : shift = 0 ∨ binade ≤ n := hlow.imp_right And.left
  have hunits : (units (shift * binade + n) : ℚ) = n * 2 ^ shift := by
    rw [units_shift hle hlow']
    push_cast
    rw [cast_twoTo]
  constructor
  · rw [hparity]
    rcases Nat.lt_or_eq_of_le hle with hlt | rfl
    · rwa [halfway_shift hlt hlow']
    · -- the last rank is the first of the next binade, whose steps are twice as long
      left
      have hnext : shift * binade + 2 * binade = (shift + 1) * binade + binade := by ring
      rw [hnext, halfway_shift (by decide) (.inr le_rfl)]
      have hlast : ((binade : ℚ) + 1 / 2) * 2 ^ (shift + 1) =
          ((2 * binade : Nat) + 1 / 2) * 2 ^ shift + 2 ^ shift / 2 := by
        push_cast
        ring
      rcases hbelow with hin | ⟨hon, -⟩ <;> linarith
  · intro r hr
    rw [hparity]
    by_cases hfirst : shift = 0 ∨ binade + 1 ≤ n
    · obtain ⟨m, rfl⟩ : ∃ m, n = m + 1 := by
        refine ⟨n - 1, ?_⟩
        rcases hfirst with rfl | hn <;> omega
      obtain rfl : r = shift * binade + m := by omega
      have hm : halfway (shift * binade + m) = ((m + 1 : Nat) - 1 / 2) * 2 ^ shift := by
        rw [halfway_shift (by omega) (by omega)]
        push_cast
        ring
      rwa [hm]
    · -- below the first rank of a binade the steps are half as long, but the ratio is no less than its magnitude
      left
      obtain ⟨hzero, hsmall⟩ := not_or.mp hfirst
      obtain ⟨hbinade, hnum⟩ := hlow.resolve_left hzero
      obtain rfl : n = binade := by omega
      have hcast : ((binade : Nat) * (den * twoTo shift) : ℚ) ≤ num := by exact_mod_cast hnum
      rw [cast_twoTo] at hcast
      have hratio : (binade : ℚ) * 2 ^ shift ≤ num / den := by
        rw [le_div_iff₀ (by exact_mod_cast hden)]
        linarith
      have hr' : halfway r < units (shift * binade + binade) := hr ▸ halfway_lt_units r
      linarith

theorem exists_rounds (hu : 0 ≤ u) : ∃ rank, Rounds u rank := by
  have hratio : u = (u.num.toNat : ℚ) / u.den := by
    have hnum : ((u.num.toNat : Int) : ℚ) = u.num := by
      rw [Int.toNat_of_nonneg (Rat.num_nonneg.mpr hu)]
    rw [← Int.cast_natCast, hnum, Rat.num_div_den]
  refine ⟨nearestRank u.num.toNat u.den, ?_⟩
  have hrounds := rounds_nearestRank u.num.toNat u.den_pos
  rwa [← hratio] at hrounds

/-- How many units a rational number has. -/
def unitsOf (v : ℚ) : ℚ := v * 2 ^ 1074

/-- A floating-point number is what a sign and a magnitude round to; from half a step above the greatest finite
magnitude on, that is infinite. -/
def RoundsTo (negative : Bool) (v : ℚ) (x : Binary64) : Prop :=
  ∃ rank, x = ofRank negative rank ∧ Rounds (unitsOf v) rank

theorem roundsTo_ofRatio (negative : Bool) (num : Nat) {den : Nat} (hden : 0 < den) :
    RoundsTo negative (num / den) (ofRatio negative num den) := by
  refine ⟨_, rfl, ?_⟩
  have hrounds := rounds_nearestRank (num * unitsOfOne) hden
  rw [Nat.cast_mul, unitsOfOne, cast_twoTo] at hrounds
  rwa [unitsOf, div_mul_eq_mul_div]

theorem roundsTo_ofInt (i : Int) : RoundsTo (i < 0) i.natAbs (ofInt i) := by
  have hrounds := roundsTo_ofRatio (i < 0) i.natAbs Nat.one_pos
  rwa [Nat.cast_one, div_one] at hrounds

/-! ### The ends of the range -/

theorem halfway_limit : halfway (rankLimit - 1) = unitsOf (2 ^ 1024 - 2 ^ 970) := by
  have hsum : units (rankLimit - 1) + units (rankLimit - 1 + 1) + 2 * twoTo (970 + 1074) = 2 * twoTo (1024 + 1074) := by
    decide +kernel
  have hcast : (units (rankLimit - 1) + units (rankLimit - 1 + 1) + 2 * twoTo (970 + 1074) : ℚ) =
      2 * twoTo (1024 + 1074) := by exact_mod_cast hsum
  rw [cast_twoTo, cast_twoTo, pow_add, pow_add] at hcast
  rw [halfway, unitsOf, sub_mul]
  generalize (2 : ℚ) ^ 1024 * 2 ^ 1074 = a at hcast ⊢
  generalize (2 : ℚ) ^ 970 * 2 ^ 1074 = b at hcast ⊢
  linarith

theorem unitsOf_inv_pow {m n : Nat} (h : m + n = 1074) : unitsOf (1 / 2 ^ m) = 2 ^ n := by
  have hpow : (2 : ℚ) ^ m ≠ 0 := pow_ne_zero m two_ne_zero
  rw [unitsOf, ← h, pow_add, one_div, inv_mul_cancel_left₀ hpow]

theorem unitsOf_half : unitsOf (1 / 2 ^ 1075) = 1 / 2 := by
  have hpow : (2 : ℚ) ^ 1074 ≠ 0 := pow_ne_zero 1074 two_ne_zero
  rw [unitsOf, pow_succ, one_div, mul_inv_rev, inv_mul_cancel_right₀ hpow, one_div]

theorem halfway_binade : halfway (binade - 1) = unitsOf (1 / 2 ^ 1022 - 1 / 2 ^ 1075) := by
  have hsub : ∀ v w, unitsOf (v - w) = unitsOf v - unitsOf w := fun v w => sub_mul v w _
  have hlow : units (binade - 1) = binade - 1 := units_of_lt (by decide)
  have hhigh : units (binade - 1 + 1) = binade := by decide +kernel
  rw [hsub, unitsOf_half, unitsOf_inv_pow (n := 52) rfl, halfway, hlow, hhigh]
  norm_num [binade]

theorem halfway_zero : halfway 0 = unitsOf (1 / 2 ^ 1075) := by
  have hlow : units 0 = 0 := units_of_lt (by decide)
  have hhigh : units (0 + 1) = 1 := units_of_lt (by decide)
  rw [unitsOf_half, halfway, hlow, hhigh]
  norm_num

theorem unitsOf_lt_unitsOf {v w : ℚ} : unitsOf v < unitsOf w ↔ v < w := by
  unfold unitsOf
  exact mul_lt_mul_iff_left₀ (by positivity)

theorem unitsOf_le_unitsOf {v w : ℚ} : unitsOf v ≤ unitsOf w ↔ v ≤ w := by
  unfold unitsOf
  exact mul_le_mul_iff_left₀ (by positivity)

namespace Rounds

variable {v : ℚ} (h : Rounds (unitsOf v) rank)
include h

/-- Below the half-way point behind an odd rank no rank is greater. -/
theorem lt_iff_of_halfway {k : Nat} {w : ℚ} (hk : halfway (k - 1) = unitsOf w) (hodd : (k - 1) % 2 = 1) :
    rank < k ↔ v < w := by
  have hle := h.le_iff (k - 1)
  rw [hk, unitsOf_lt_unitsOf] at hle
  constructor
  · intro hlt
    rcases hle.mp (by omega) with hv | ⟨-, heven⟩
    · exact hv
    · omega
  · intro hv
    have hrank := hle.mpr (.inl hv)
    omega

theorem lt_rankLimit_iff : rank < rankLimit ↔ v < 2 ^ 1024 - 2 ^ 970 := h.lt_iff_of_halfway halfway_limit (by decide)

theorem lt_binade_iff : rank < binade ↔ v < 1 / 2 ^ 1022 - 1 / 2 ^ 1075 :=
  h.lt_iff_of_halfway halfway_binade (by decide)

theorem eq_zero_iff : rank = 0 ↔ v ≤ 1 / 2 ^ 1075 := by
  have hle := h.le_iff 0
  rw [halfway_zero, unitsOf_lt_unitsOf] at hle
  rw [← Nat.le_zero, hle, le_iff_lt_or_eq]
  refine or_congr_right ⟨fun heq => ?_, fun heq => ?_⟩
  · exact unitsOf_le_unitsOf.mp heq.1.le |>.antisymm (unitsOf_le_unitsOf.mp heq.1.ge)
  · exact ⟨congrArg unitsOf heq, rfl⟩

end Rounds

theorem ofRank_of_lt {negative : Bool} (h : rank < rankLimit) : ofRank negative rank = .finite negative ⟨rank, h⟩ :=
  dif_pos h

theorem ofRank_of_le {negative : Bool} (h : rankLimit ≤ rank) : ofRank negative rank = .infinite negative :=
  dif_neg (Nat.not_lt.mpr h)

/-! ### Decimal numbers -/

theorem roundsTo_zero (negative : Bool) {v : ℚ} (hzero : 0 ≤ v) (hv : v ≤ 1 / 2 ^ 1075) :
    RoundsTo negative v (zero negative) := by
  obtain ⟨rank, hrank⟩ := exists_rounds (mul_nonneg hzero (by positivity) : 0 ≤ unitsOf v)
  obtain rfl := hrank.eq_zero_iff.mpr hv
  exact ⟨0, rfl, hrank⟩

theorem roundsTo_infinite (negative : Bool) {v : ℚ} (hv : 2 ^ 1024 - 2 ^ 970 ≤ v) (hzero : 0 ≤ v) :
    RoundsTo negative v (.infinite negative) := by
  obtain ⟨rank, hrank⟩ := exists_rounds (mul_nonneg hzero (by positivity) : 0 ≤ unitsOf v)
  have hlimit : rankLimit ≤ rank := by
    by_contra hlt
    exact absurd (hrank.lt_rankLimit_iff.mp (by omega)) (not_lt.mpr hv)
  exact ⟨rank, (ofRank_of_le hlimit).symm, hrank⟩

section

variable {digits : Nat} {exponent : Int}

/-- The leading digit of a decimal number bounds it from below, and its place from above. -/
theorem pow_le_decimal (hdigits : 0 < digits) {k : Int} (hk : k < exponent + (decimal digits).length) :
    (10 : ℚ) ^ k ≤ digits * 10 ^ exponent := by
  have hlength : ((10 : ℚ) ^ (decimal digits).length) ≤ 10 * digits := by
    exact_mod_cast pow_length_decimal_le hdigits
  have hten : (0 : ℚ) < 10 ^ exponent := zpow_pos (by norm_num) exponent
  have htop : (10 : ℚ) ^ (k + 1) ≤ 10 ^ (exponent + (decimal digits).length) := zpow_le_zpow_right₀ (by norm_num) hk
  rw [zpow_add_one₀ (by norm_num), zpow_add₀ (by norm_num), zpow_natCast] at htop
  have hmul := mul_le_mul_of_nonneg_left hlength hten.le
  linarith

theorem decimal_lt_pow {k : Int} (hk : exponent + (decimal digits).length ≤ k) :
    digits * (10 : ℚ) ^ exponent < 10 ^ k := by
  have hlength : (digits : ℚ) < 10 ^ (decimal digits).length := by
    have hlt := digitsValue_lt (all_decimal digits)
    rw [digitsValue_decimal] at hlt
    exact_mod_cast hlt
  have hten : (0 : ℚ) < 10 ^ exponent := zpow_pos (by norm_num) exponent
  refine (mul_lt_mul_of_pos_right hlength hten).trans_le ?_
  rw [← zpow_natCast, ← zpow_add₀ (by norm_num), add_comm]
  exact zpow_le_zpow_right₀ (by norm_num) hk

theorem decimal_le_least (htop : exponent + (decimal digits).length ≤ -331) :
    digits * (10 : ℚ) ^ exponent ≤ 1 / 2 ^ 1075 := by
  have hpow : (10 : ℚ) ^ (-331 : Int) ≤ 1 / 2 ^ 1075 := by
    have hnat : twoTo 1075 ≤ tenTo 331 := by decide +kernel
    have hcast : (2 : ℚ) ^ 1075 ≤ 10 ^ 331 := by
      rw [← cast_twoTo, ← cast_tenTo]
      exact_mod_cast hnat
    rw [zpow_neg, one_div]
    exact inv_anti₀ (pow_pos two_pos 1075) hcast
  exact (decimal_lt_pow htop).le.trans hpow

/-- A decimal number is rounded, whether it is computed with or settled by counting its digits. -/
theorem roundsTo_ofDecimal (negative : Bool) (digits : Nat) (exponent : Int) :
    RoundsTo negative (digits * 10 ^ exponent) (ofDecimal negative digits exponent) := by
  have hvalue : (0 : ℚ) ≤ digits * 10 ^ exponent := mul_nonneg (Nat.cast_nonneg _) (zpow_nonneg (by norm_num) _)
  unfold ofDecimal
  dsimp only
  split_ifs with hdigits hlarge hsmall hwhole
  · rw [hdigits, Nat.cast_zero, zero_mul]
    exact roundsTo_zero negative le_rfl (one_div_nonneg.mpr (pow_nonneg zero_le_two 1075))
  · refine roundsTo_infinite negative ?_ hvalue
    have hpow : (2 : ℚ) ^ 1024 ≤ 10 ^ 310 := by
      have hnat : twoTo 1024 ≤ tenTo 310 := by decide +kernel
      rw [← cast_twoTo, ← cast_tenTo]
      exact_mod_cast hnat
    have hten : (10 : ℚ) ^ (310 : Int) ≤ digits * 10 ^ exponent := pow_le_decimal (Nat.pos_of_ne_zero hdigits) hlarge
    have hstep : (0 : ℚ) ≤ 2 ^ 970 := pow_nonneg zero_le_two 970
    exact (sub_le_self _ hstep).trans (hpow.trans hten)
  · refine roundsTo_zero negative hvalue ?_
    exact decimal_le_least (by omega)
  · obtain ⟨e, rfl⟩ := Int.eq_ofNat_of_zero_le hwhole
    have hratio := roundsTo_ofRatio negative (digits * tenTo e) Nat.one_pos
    rwa [Nat.cast_mul, cast_tenTo, Nat.cast_one, div_one, ← zpow_natCast] at hratio
  · obtain ⟨e, rfl⟩ : ∃ e : Nat, exponent = -(e : Int) := ⟨(-exponent).toNat, by omega⟩
    have hratio := roundsTo_ofRatio negative digits (tenTo_pos e)
    rw [cast_tenTo, div_eq_mul_inv, ← zpow_natCast, ← zpow_neg] at hratio
    rwa [Int.neg_neg, Int.toNat_natCast]

end

/-! ### Finite numbers -/

/-- A magnitude with a sign. -/
def withSign (negative : Bool) (v : ℚ) : ℚ := if negative then -v else v

theorem withSign_sub (negative : Bool) (v w : ℚ) : |withSign negative v - withSign negative w| = |v - w| := by
  cases negative with
  | false => rfl
  | true =>
    simp only [withSign, if_true]
    rw [neg_sub_neg, abs_sub_comm]

theorem withSign_add (negative : Bool) (v w : ℚ) : |withSign negative v - withSign (!negative) w| = |v + w| := by
  cases negative with
  | false => simp [withSign]
  | true =>
    have hneg : withSign true v - withSign (!true) w = -(v + w) := by
      simp [withSign]
      ring
    rw [hneg, abs_neg]

@[simp] theorem withSign_zero (negative : Bool) : withSign negative 0 = 0 := by
  cases negative <;> simp [withSign]

theorem exists_of_toUnits {x : Binary64} {i : Int} (h : x.toUnits = some i) :
    ∃ negative rank, x = .finite negative rank ∧ (i : ℚ) = withSign negative (units rank) := by
  cases x with
  | nan => cases h
  | infinite => cases h
  | finite negative rank =>
    refine ⟨negative, rank, rfl, ?_⟩
    rw [toUnits_finite, Option.some.injEq] at h
    rw [← h]
    cases negative <;> simp [withSign]

theorem bits_finite (negative : Bool) (rank : Fin rankLimit) : (finite negative rank).bits % 2 = rank.val % 2 := by
  cases negative with
  | false => simp [bits]
  | true =>
    simp only [bits, if_true, signBit]
    omega

namespace RoundsTo

variable {negative : Bool} {v : ℚ} {x : Binary64}

theorem isFinite_iff (h : RoundsTo negative v x) : x.isFinite = true ↔ v < 2 ^ 1024 - 2 ^ 970 := by
  obtain ⟨rank, rfl, hrank⟩ := h
  rw [← hrank.lt_rankLimit_iff]
  rcases Nat.lt_or_ge rank rankLimit with hlt | hge
  · simp [ofRank_of_lt hlt, isFinite, hlt]
  · simp [ofRank_of_le hge, isFinite, hge]

theorem unique {y : Binary64} (h : RoundsTo negative v x) (hy : RoundsTo negative v y) : x = y := by
  obtain ⟨rank, rfl, hrank⟩ := h
  obtain ⟨k, rfl, hk⟩ := hy
  rw [hrank.unique hk]

theorem exists_rank (h : RoundsTo negative v x) (hx : x.isFinite = true) :
    ∃ rank : Fin rankLimit, x = .finite negative rank ∧ Rounds (unitsOf v) rank := by
  obtain ⟨rank, rfl, hrank⟩ := h
  rcases Nat.lt_or_ge rank rankLimit with hlt | hge
  · exact ⟨⟨rank, hlt⟩, ofRank_of_lt hlt, hrank⟩
  · rw [ofRank_of_le hge] at hx
    cases hx

/-- No finite number is nearer than the one that a number rounds to, and one that is as near is the same number but
for the sign of a zero, or the last bit decides. -/
theorem nearest (h : RoundsTo negative v x) (hv : 0 ≤ v) {i k : Int} (hi : x.toUnits = some i) {y : Binary64}
    (hk : y.toUnits = some k) :
    |unitsOf (withSign negative v) - i| < |unitsOf (withSign negative v) - k| ∨
      |unitsOf (withSign negative v) - i| = |unitsOf (withSign negative v) - k| ∧ (k = i ∨ x.bits % 2 = 0) := by
  have hx : x.isFinite = true := by
    cases x with
    | finite => rfl
    | _ => cases hi
  obtain ⟨rank, rfl, hrounds⟩ := h.exists_rank hx
  obtain ⟨_, _, hsame, hi'⟩ := exists_of_toUnits hi
  obtain ⟨rfl, rfl⟩ := Binary64.finite.inj hsame
  obtain ⟨sign, other, rfl, hk'⟩ := exists_of_toUnits hk
  have hunits : unitsOf (withSign negative v) = withSign negative (unitsOf v) := by
    cases negative <;> simp [withSign, unitsOf]
  have hmagnitude : 0 ≤ unitsOf v := mul_nonneg hv (pow_nonneg zero_le_two 1074)
  have hother : (0 : ℚ) ≤ units other := Nat.cast_nonneg _
  have hsum : |unitsOf v - units other| ≤ |unitsOf v + units other| := by
    rw [abs_of_nonneg (add_nonneg hmagnitude hother), abs_le]
    constructor <;> linarith
  rw [bits_finite, hunits, hi', hk', withSign_sub]
  by_cases hrank : other = rank
  · subst hrank
    rcases Bool.eq_or_eq_not sign negative with rfl | rfl
    · right
      exact ⟨(withSign_sub ..).symm, .inl (by exact_mod_cast hk'.trans hi'.symm)⟩
    · rw [withSign_add]
      rcases hother.eq_or_lt with hzero | hpos
      · right
        have hki : (k : ℚ) = i := by rw [hk', hi', ← hzero, withSign_zero, withSign_zero]
        rw [← hzero, sub_zero, add_zero]
        exact ⟨rfl, .inl (by exact_mod_cast hki)⟩
      · left
        have hv' : 0 < unitsOf v := hrounds.pos (by
          intro hnone
          rw [hnone, units_of_lt (by decide), Nat.cast_zero] at hpos
          exact hpos.false)
        rw [abs_of_pos (add_pos hv' hpos), abs_lt]
        constructor <;> linarith
  · have hne : other.val ≠ rank.val := fun hval => hrank (Fin.ext hval)
    rcases Bool.eq_or_eq_not sign negative with rfl | rfl
    · rw [withSign_sub]
      exact (hrounds.nearest hne).imp_right fun ⟨heq, heven⟩ => ⟨heq, .inr heven⟩
    · rw [withSign_add]
      rcases hrounds.nearest hne with hlt | ⟨heq, heven⟩
      · exact .inl (hlt.trans_le hsum)
      · exact (lt_or_eq_of_le (heq.trans_le hsum)).imp_right fun hmirror => ⟨hmirror, .inr heven⟩

end RoundsTo

end Binary64

end QuoteFeed
