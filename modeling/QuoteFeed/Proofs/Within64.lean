import QuoteFeed.Proofs.DayByDay
import QuoteFeed.Proofs.Layout

/-!
Arithmetic within 64 bits: what a computation comes to if every number formed on the way is one that a signed
64-bit integer holds, and nothing at all as soon as one is not. A computation that always comes to something
here never overflows.
-/

namespace QuoteFeed

namespace Instant

theorem le_tdiv_iff {n limit : Int} {w : Nat} (hlimit : 0 ≤ limit) (hw : 0 < w) :
    n ≤ limit.tdiv w ↔ n * w ≤ limit := by
  rw [Int.tdiv_eq_ediv_of_nonneg hlimit]
  exact Int.le_ediv_iff_mul_le (by omega)

theorem tdiv_le_iff {n limit : Int} {w : Nat} (hlimit : limit ≤ 0) (hw : 0 < w) :
    limit.tdiv w ≤ n ↔ limit ≤ n * w := by
  have hneg : (-limit).tdiv w = -(limit.tdiv w) := Int.neg_tdiv ..
  have hflip := @le_tdiv_iff (-n) (-limit) w (by omega) hw
  rw [hneg, Int.neg_mul] at hflip
  omega

/-- A count of units names an instant just in case 64 bits can hold the nanoseconds. -/
theorem ofUnits?_eq {w : Nat} (hw : 0 < w) (n : Int) : ofUnits? w n = ofNanos? (n * w) := by
  have hhigh := @le_tdiv_iff n int64Max w (by decide) hw
  have hlow := @tdiv_le_iff n int64Min w (by decide) hw
  unfold ofUnits? ofNanos?
  split
  next h => rw [dif_pos ⟨hlow.mp h.2.2, hhigh.mp h.2.1⟩]
  next h => rw [dif_neg fun hin => h ⟨hw, hhigh.mpr hin.2, hlow.mpr hin.1⟩]

theorem ofNanos?_eq_some {i : Int} (hlow : int64Min ≤ i) (hhigh : i ≤ int64Max) :
    ofNanos? i = some { ns := i, low := hlow, high := hhigh } := by
  rw [ofNanos?, dif_pos ⟨hlow, hhigh⟩]

end Instant

namespace Within64

/-- A number, as long as 64 bits can hold it. -/
def keep (i : Int) : Option Int := if inInt64 i then some i else none

/-- The microseconds of a fraction, digit by digit. -/
def fraction (digits : Octets) : Option Int :=
  ((digits ++ List.replicate 6 Ascii.zero).take 6).foldlM
    (fun n b => do keep ((← keep (n * 10)) + digitValue b)) 0

/-- The microseconds in what follows the fields of a civil time. -/
def restMicros : Octets → Option Int
  | Ascii.point :: rest => fraction (rest.takeWhile isDigit)
  | _ => some 0

/-- The microseconds from 1970 to a civil time, unit by unit. -/
def micros (c : CivilTime) : Option Int := do
  let hours ← keep ((← keep ((← keep c.date.toDays) * 24)) + c.hour)
  let minutes ← keep ((← keep (hours * 60)) + c.minute)
  let seconds ← keep ((← keep (minutes * 60)) + c.second)
  keep ((← keep (seconds * 1000000)) + c.micros)

/-- The instant of a count of units of `w` nanoseconds: the product is formed behind the guard only. -/
def units (w : Nat) (n : Int) : Option (Option Instant) :=
  if int64Max.tdiv w < n ∨ n < int64Min.tdiv w then some none else (keep (n * w)).map Instant.ofNanos?

/-- The instant that a text names as a civil time. -/
def iso8601 (s : Octets) : Option (Option Instant) :=
  match CivilTime.ofText? s with
  | none => some none
  | some c => do units 1000 (← micros { c with micros := (← restMicros (s.drop 19)) })

theorem keep_eq {i : Int} (hlow : -9223372036854775808 ≤ i) (hhigh : i ≤ 9223372036854775807) : keep i = some i := by
  have h : inInt64 i = true := by simp [inInt64, int64Min, int64Max, hlow, hhigh]
  rw [keep, if_pos h]

/-- Behind the guard no product leaves the 64 bits. -/
theorem units_eq {w : Nat} (hw : 0 < w) (n : Int) : units w n = some (Instant.ofUnits? w n) := by
  rw [Instant.ofUnits?_eq hw]
  have hhigh := @Instant.le_tdiv_iff n int64Max w (by decide) hw
  have hlow := @Instant.tdiv_le_iff n int64Min w (by decide) hw
  unfold units
  split
  next hout =>
    have hnone : ¬(int64Min ≤ n * w ∧ n * w ≤ int64Max) := by omega
    rw [Instant.ofNanos?, dif_neg hnone]
  next hin =>
    rw [keep_eq (hlow.mp (by omega)) (hhigh.mp (by omega)), Option.map_some]

theorem foldlM_keep {s : Octets} (hdigits : s.all isDigit = true) (hlength : s.length ≤ 18) :
    s.foldlM (fun n b => do keep ((← keep (n * 10)) + digitValue b)) (0 : Int) = some (digitsValue s : Int) := by
  induction s using List.reverseRecOn with
  | nil => rfl
  | append_singleton s b ih =>
    rw [List.all_append, Bool.and_eq_true] at hdigits
    rw [List.length_append, List.length_singleton] at hlength
    have hs := digitsValue_lt hdigits.1
    have hb : digitValue b < 10 := digitValue_lt (by simpa using hdigits.2)
    have hpow : 10 ^ s.length ≤ 10 ^ 17 := Nat.pow_le_pow_right (by decide) (by omega)
    rw [List.foldlM_append, ih hdigits.1 (by omega), digitsValue_concat]
    simp (disch := omega) only [List.foldlM_cons, List.foldlM_nil, Option.bind_eq_bind, Option.bind_some, keep_eq,
      Option.pure_def]
    congr 1
    omega

theorem six_digits {digits : Octets} (h : digits.all isDigit = true) :
    ((digits ++ List.replicate 6 Ascii.zero).take 6).all isDigit = true ∧
      ((digits ++ List.replicate 6 Ascii.zero).take 6).length = 6 := by
  constructor
  · rw [List.all_eq_true] at h ⊢
    intro b hb
    rcases List.mem_append.mp (List.mem_of_mem_take hb) with hin | hzero
    · exact h b hin
    · rw [(List.mem_replicate.mp hzero).2]
      decide
  · rw [List.length_take, List.length_append, List.length_replicate]
    omega

theorem fraction_eq {digits : Octets} (h : digits.all isDigit = true) :
    fraction digits = some (CivilTime.fractionMicros digits) := by
  obtain ⟨hall, hlength⟩ := six_digits h
  exact foldlM_keep hall (by omega)

theorem fractionMicros_bounds {digits : Octets} (h : digits.all isDigit = true) :
    0 ≤ CivilTime.fractionMicros digits ∧ CivilTime.fractionMicros digits < 1000000 := by
  obtain ⟨hall, hlength⟩ := six_digits h
  have hlt := digitsValue_lt hall
  rw [hlength] at hlt
  unfold CivilTime.fractionMicros
  omega

/-- The fields of a civil time are small, as they are in a text. -/
structure Small (c : CivilTime) : Prop where
  days : -5000000 ≤ c.date.toDays ∧ c.date.toDays ≤ 3000000
  hour : -100 < c.hour ∧ c.hour < 100
  minute : -100 < c.minute ∧ c.minute < 100
  second : -100 < c.second ∧ c.second < 100
  micros : 0 ≤ c.micros ∧ c.micros < 1000000

theorem micros_eq {c : CivilTime} (h : Small c) : micros c = some c.toMicros := by
  obtain ⟨hdays, hhour, hminute, hsecond, hmicros⟩ := h
  unfold micros CivilTime.toMicros
  simp (disch := omega) only [keep_eq, Option.bind_eq_bind, Option.bind_some]

theorem restMicros_eq (rest : Octets) : restMicros rest = some (StampParts.restMicros rest) := by
  fun_cases StampParts.restMicros rest with
  | case1 rest => exact fraction_eq List.all_takeWhile
  | case2 rest h => exact restMicros.eq_2 rest h

theorem restMicros_bounds (rest : Octets) :
    0 ≤ StampParts.restMicros rest ∧ StampParts.restMicros rest < 1000000 := by
  unfold StampParts.restMicros
  split
  next rest => exact fractionMicros_bounds List.all_takeWhile
  next => decide

theorem small_of_spells {p : StampParts} {c : CivilTime} (hsized : p.Sized) (h : p.Spells c) : Small c := by
  have htwo : ∀ {s : Octets} {i : Int}, s.length = 2 → wholeInt? s = some i → -100 < i ∧ i < 100 := by
    intro s i hlength hi
    have habs := natAbs_lt_of_wholeInt? hi
    rw [hlength] at habs
    omega
  have hreal : c.date.isReal = true := by
    have hc := h.real
    simp only [CivilTime.isReal, Bool.and_eq_true] at hc
    exact hc.1.1.1
  have hyear := natAbs_lt_of_wholeInt? h.year
  rw [hsized.year] at hyear
  have hdays := Date.toDays_bounds hreal
  refine ⟨?_, htwo hsized.hour h.hour, htwo hsized.minute h.minute, htwo hsized.second h.second, ?_⟩
  · unfold Date.daysBeforeYear Date.yearLength at hdays
    split at hdays <;> omega
  · rw [h.micros]
    exact restMicros_bounds p.rest

/-- Nothing overflows when a text is read as a civil time, whatever the text. -/
theorem iso8601_eq (s : Octets) : iso8601 s = some (Instant.ofIso8601? s) := by
  unfold iso8601 Instant.ofIso8601?
  cases hc : CivilTime.ofText? s with
  | none => rfl
  | some c =>
    obtain ⟨p, hsized, rfl, hspells⟩ := StampParts.ofText?_eq_some_iff.mp hc
    have hrest : p.text.drop 19 = p.rest := congrArg StampParts.rest hsized.ofText
    have hmicros : micros c = some c.toMicros := micros_eq (small_of_spells hsized hspells)
    have hsame : { c with micros := StampParts.restMicros p.rest } = c := by rw [← hspells.micros]
    simp only [hrest, restMicros_eq, Option.bind_eq_bind, Option.bind_some, hsame, hmicros]
    exact units_eq (by decide) c.toMicros

end Within64

end QuoteFeed
