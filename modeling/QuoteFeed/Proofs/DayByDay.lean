import QuoteFeed.Calendar
import Mathlib.Data.List.GetD
import Mathlib.Logic.Function.Iterate

/-!
The calendar day by day. A date has a next and a previous day, and so every whole number of days names the date
that many days after the first day of 1970. The number of a date is this number of days.
-/

namespace QuoteFeed

namespace Date

/-- The first day of 1970. -/
def epoch : Date := { year := 1970, month := 1, day := 1 }

/-- The following day: of the same month, the first of the next month, or the first of the next year. -/
def next (d : Date) : Date :=
  if d.day < monthLength d.year d.month then { d with day := d.day + 1 }
  else if d.month < 12 then { d with month := d.month + 1, day := 1 }
  else { year := d.year + 1, month := 1, day := 1 }

/-- The day before: of the same month, the last of the month before, or the last of the year before. -/
def previous (d : Date) : Date :=
  if 1 < d.day then { d with day := d.day - 1 }
  else if 1 < d.month then { d with month := d.month - 1, day := monthLength d.year (d.month - 1) }
  else { year := d.year - 1, month := 12, day := 31 }

/-- The date some days after the first day of 1970, or before it if the number is negative. -/
def ofDays : Int → Date
  | .ofNat n => next^[n] epoch
  | .negSucc n => previous^[n + 1] epoch

theorem isReal_iff {d : Date} : d.isReal = true ↔ 1 ≤ d.day ∧ d.day ≤ monthLength d.year d.month := by
  rw [isReal, Bool.and_eq_true, decide_eq_true_eq, decide_eq_true_eq]

/-! ### Months and years -/

theorem month_bounds {year month : Int} (h : 1 ≤ monthLength year month) : 1 ≤ month ∧ month ≤ 12 := by
  unfold monthLength at h
  split at h
  next hlow =>
    refine ⟨hlow, ?_⟩
    by_contra hhigh
    have hout : 12 ≤ (month - 1).toNat := by omega
    rw [List.getD_eq_default _ _ hout] at h
    omega
  next => omega

theorem real_bounds {d : Date} (h : d.isReal = true) :
    (1 ≤ d.month ∧ d.month ≤ 12) ∧ 1 ≤ d.day ∧ d.day ≤ monthLength d.year d.month := by
  have hday := isReal_iff.mp h
  exact ⟨month_bounds (Int.le_trans hday.1 hday.2), hday⟩

theorem month_cases {month : Int} (hlow : 1 ≤ month) (hhigh : month ≤ 12) : month = 1 ∨ month = 2 ∨ month = 3 ∨
    month = 4 ∨ month = 5 ∨ month = 6 ∨ month = 7 ∨ month = 8 ∨ month = 9 ∨ month = 10 ∨ month = 11 ∨ month = 12 := by
  omega

/-- The number of days of a year. -/
def yearLength (year : Int) : Int := if isLeap year then 366 else 365

theorem daysBeforeYear_succ (year : Int) : daysBeforeYear (year + 1) = daysBeforeYear year + yearLength year := by
  unfold daysBeforeYear yearLength
  split
  next h =>
    simp only [isLeap, Bool.and_eq_true, Bool.or_eq_true, decide_eq_true_eq] at h
    omega
  next h =>
    simp only [isLeap, Bool.and_eq_true, Bool.or_eq_true, decide_eq_true_eq] at h
    omega

theorem daysBeforeMonth_succ {year month : Int} (hlow : 1 ≤ month) (hhigh : month ≤ 12) :
    daysBeforeMonth year (month + 1) = daysBeforeMonth year month + monthLength year month := by
  obtain rfl | rfl | rfl | rfl | rfl | rfl | rfl | rfl | rfl | rfl | rfl | rfl := month_cases hlow hhigh <;>
    simp [daysBeforeMonth, monthLength, monthLengths]

theorem daysBeforeMonth_one (year : Int) : daysBeforeMonth year 1 = 0 := rfl

theorem daysBeforeMonth_end (year : Int) : daysBeforeMonth year 13 = yearLength year := by
  cases h : isLeap year <;> simp [daysBeforeMonth, monthLengths, yearLength, h]

theorem monthLength_bounds {year month : Int} (hlow : 1 ≤ month) (hhigh : month ≤ 12) :
    28 ≤ monthLength year month ∧ monthLength year month ≤ 31 := by
  obtain rfl | rfl | rfl | rfl | rfl | rfl | rfl | rfl | rfl | rfl | rfl | rfl := month_cases hlow hhigh <;>
    simp [monthLength, monthLengths]
  split <;> decide

theorem monthLength_twelve (year : Int) : monthLength year 12 = 31 := rfl

/-! ### The next day and the day before -/

theorem toDays_eq (d : Date) : d.toDays =
    daysBeforeYear d.year - daysBeforeYear 1970 + daysBeforeMonth d.year d.month + d.day - 1 := rfl

theorem real_next {d : Date} (h : d.isReal = true) : d.next.isReal = true := by
  obtain ⟨⟨hlow, hhigh⟩, hday, hlast⟩ := real_bounds h
  rw [isReal_iff]
  unfold next
  split
  next hin =>
    change 1 ≤ d.day + 1 ∧ d.day + 1 ≤ monthLength d.year d.month
    omega
  next =>
    split
    next hmonth =>
      have hlength := @monthLength_bounds d.year (d.month + 1) (by omega) (by omega)
      change 1 ≤ (1 : Int) ∧ 1 ≤ monthLength d.year (d.month + 1)
      omega
    next =>
      have hlength := @monthLength_bounds (d.year + 1) 1 (by omega) (by omega)
      change 1 ≤ (1 : Int) ∧ 1 ≤ monthLength (d.year + 1) 1
      omega

theorem toDays_next {d : Date} (h : d.isReal = true) : d.next.toDays = d.toDays + 1 := by
  obtain ⟨⟨hlow, hhigh⟩, hday, hlast⟩ := real_bounds h
  have hmonth := @daysBeforeMonth_succ d.year d.month hlow hhigh
  rw [toDays_eq, toDays_eq]
  unfold next
  split
  next hin =>
    change daysBeforeYear d.year - daysBeforeYear 1970 + daysBeforeMonth d.year d.month + (d.day + 1) - 1 = _
    omega
  next hout =>
    split
    next =>
      change daysBeforeYear d.year - daysBeforeYear 1970 + daysBeforeMonth d.year (d.month + 1) + 1 - 1 = _
      omega
    next hend =>
      have hyear := daysBeforeYear_succ d.year
      have hdecember : d.month = 12 := by omega
      have hwhole : daysBeforeMonth d.year (d.month + 1) = yearLength d.year := by
        rw [hdecember]
        exact daysBeforeMonth_end d.year
      have hfirst := daysBeforeMonth_one (d.year + 1)
      change daysBeforeYear (d.year + 1) - daysBeforeYear 1970 + daysBeforeMonth (d.year + 1) 1 + 1 - 1 = _
      omega

theorem real_previous {d : Date} (h : d.isReal = true) : d.previous.isReal = true := by
  obtain ⟨⟨hlow, hhigh⟩, hday, hlast⟩ := real_bounds h
  rw [isReal_iff]
  unfold previous
  split
  next hin =>
    change 1 ≤ d.day - 1 ∧ d.day - 1 ≤ monthLength d.year d.month
    omega
  next =>
    split
    next hmonth =>
      have hlength := @monthLength_bounds d.year (d.month - 1) (by omega) (by omega)
      change 1 ≤ monthLength d.year (d.month - 1) ∧ monthLength d.year (d.month - 1) ≤ monthLength d.year (d.month - 1)
      omega
    next =>
      change 1 ≤ (31 : Int) ∧ 31 ≤ monthLength (d.year - 1) 12
      rw [monthLength_twelve]
      omega

theorem toDays_previous {d : Date} (h : d.isReal = true) : d.previous.toDays = d.toDays - 1 := by
  obtain ⟨⟨hlow, hhigh⟩, hday, hlast⟩ := real_bounds h
  rw [toDays_eq, toDays_eq]
  unfold previous
  split
  next hin =>
    change daysBeforeYear d.year - daysBeforeYear 1970 + daysBeforeMonth d.year d.month + (d.day - 1) - 1 = _
    omega
  next hout =>
    split
    next hmonth =>
      have hbefore := @daysBeforeMonth_succ d.year (d.month - 1) (by omega) (by omega)
      rw [Int.sub_add_cancel] at hbefore
      change daysBeforeYear d.year - daysBeforeYear 1970 + daysBeforeMonth d.year (d.month - 1) +
        monthLength d.year (d.month - 1) - 1 = _
      omega
    next hstart =>
      have hyear := daysBeforeYear_succ (d.year - 1)
      have hjanuary : d.month = 1 := by omega
      have hwhole := daysBeforeMonth_end (d.year - 1)
      have hdecember : daysBeforeMonth (d.year - 1) 13 = daysBeforeMonth (d.year - 1) 12 + 31 :=
        @daysBeforeMonth_succ (d.year - 1) 12 (by omega) (by omega)
      rw [Int.sub_add_cancel] at hyear
      rw [hjanuary, daysBeforeMonth_one]
      change daysBeforeYear (d.year - 1) - daysBeforeYear 1970 + daysBeforeMonth (d.year - 1) 12 + 31 - 1 = _
      omega

/-! ### The number of a date -/

/-- Walking from the first day of 1970, each step forward adds one to the number and each step back takes one. -/
theorem ofDays_spec (n : Int) : (ofDays n).isReal = true ∧ (ofDays n).toDays = n := by
  cases n with
  | ofNat n =>
    change (next^[n] epoch).isReal = true ∧ (next^[n] epoch).toDays = (n : Int)
    induction n with
    | zero => exact ⟨by decide, by decide⟩
    | succ n ih =>
      rw [Function.iterate_succ_apply']
      refine ⟨real_next ih.1, ?_⟩
      rw [toDays_next ih.1, ih.2]
      rfl
  | negSucc n =>
    change (previous^[n + 1] epoch).isReal = true ∧ (previous^[n + 1] epoch).toDays = Int.negSucc n
    induction n with
    | zero => exact ⟨by decide, by decide⟩
    | succ n ih =>
      rw [Function.iterate_succ_apply']
      refine ⟨real_previous ih.1, ?_⟩
      rw [toDays_previous ih.1, ih.2]
      rfl

theorem toDays_ofDays (n : Int) : (ofDays n).toDays = n := (ofDays_spec n).2

theorem daysBeforeYear_le {y z : Int} (h : y < z) : daysBeforeYear y + yearLength y ≤ daysBeforeYear z := by
  have hsucc := daysBeforeYear_succ y
  rw [← hsucc]
  unfold daysBeforeYear
  omega

theorem daysBeforeMonth_le {year m k : Int} (hlow : 1 ≤ m) (h : m < k) (hhigh : k ≤ 13) :
    daysBeforeMonth year m + monthLength year m ≤ daysBeforeMonth year k := by
  obtain ⟨n, rfl⟩ : ∃ n : Nat, k = m + 1 + n := ⟨(k - (m + 1)).toNat, by omega⟩
  induction n with
  | zero =>
    have hstep := @daysBeforeMonth_succ year m hlow (by omega)
    rw [Int.natCast_zero, Int.add_zero]
    omega
  | succ n ih =>
    have hbefore := ih (by omega) (by omega)
    have hstep := @daysBeforeMonth_succ year (m + 1 + n) (by omega) (by omega)
    have hlength := @monthLength_bounds year (m + 1 + n) (by omega) (by omega)
    rw [Int.natCast_succ, ← Int.add_assoc]
    omega

/-- Where a real date stands in its year. -/
theorem toDays_bounds {d : Date} (h : d.isReal = true) :
    daysBeforeYear d.year - daysBeforeYear 1970 ≤ d.toDays ∧
      d.toDays < daysBeforeYear d.year + yearLength d.year - daysBeforeYear 1970 := by
  obtain ⟨⟨hlow, hhigh⟩, hday, hlast⟩ := real_bounds h
  have hrest := @daysBeforeMonth_le d.year d.month 13 hlow (by omega) (by omega)
  rw [daysBeforeMonth_end] at hrest
  have hbefore : 0 ≤ daysBeforeMonth d.year d.month := by
    rcases Int.lt_or_le 1 d.month with hlater | hfirst
    · have hle := @daysBeforeMonth_le d.year 1 d.month (by omega) hlater (by omega)
      have hlength := @monthLength_bounds d.year 1 (by omega) (by omega)
      rw [daysBeforeMonth_one] at hle
      omega
    · have hjanuary : d.month = 1 := Int.le_antisymm hfirst hlow
      have hzero : daysBeforeMonth d.year d.month = 0 := by rw [hjanuary, daysBeforeMonth_one]
      omega
  rw [toDays_eq]
  omega

theorem eq_of_toDays_eq {d e : Date} (hd : d.isReal = true) (he : e.isReal = true) (h : d.toDays = e.toDays) :
    d = e := by
  obtain ⟨hdlow, hdhigh⟩ := toDays_bounds hd
  obtain ⟨helow, hehigh⟩ := toDays_bounds he
  have hyear : d.year = e.year := by
    rcases Int.lt_trichotomy d.year e.year with hlt | heq | hgt
    · have := daysBeforeYear_le hlt
      omega
    · exact heq
    · have := daysBeforeYear_le hgt
      omega
  obtain ⟨year, month, day⟩ := d
  obtain ⟨year', month', day'⟩ := e
  obtain rfl : year = year' := hyear
  obtain ⟨⟨hlow, hhigh⟩, hday, hlast⟩ := real_bounds hd
  obtain ⟨⟨hlow', hhigh'⟩, hday', hlast'⟩ := real_bounds he
  simp only [toDays_eq] at h hday hlast hday' hlast' hlow hhigh hlow' hhigh'
  have hmonth : month = month' := by
    rcases Int.lt_trichotomy month month' with hlt | heq | hgt
    · have := @daysBeforeMonth_le year month month' hlow hlt (by omega)
      omega
    · exact heq
    · have := @daysBeforeMonth_le year month' month hlow' hgt (by omega)
      omega
  subst hmonth
  obtain rfl : day = day' := by omega
  rfl

/-- Every real date is the date of its number. -/
theorem ofDays_toDays {d : Date} (h : d.isReal = true) : ofDays d.toDays = d :=
  eq_of_toDays_eq (ofDays_spec _).1 h (toDays_ofDays _)

end Date

end QuoteFeed
