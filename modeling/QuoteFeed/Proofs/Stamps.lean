import QuoteFeed.Proofs.Within64

/-!
Stamps: a date and a time of day the way they are documented to be written, `YYYY-MM-DDTHH:MM:SS` with an optional
fraction and a `Z` behind it. Every stamp is read as the instant that it names. What is read beyond the stamps
has a sign in a field or another ending.
-/

namespace QuoteFeed

/-- What follows the seconds of a stamp: the fraction, if there is one, and a `Z`. -/
def stampEnding : Option Octets → Octets
  | none => [Ascii.upperZ]
  | some digits => Ascii.point :: (digits ++ [Ascii.upperZ])

/-- A real date of four digits of the year and a time of day, with the fraction digits of the second. -/
structure Stamp where
  date : Date
  hour : Nat
  minute : Nat
  second : Nat
  separator : UInt8
  fraction : Option Octets
  real : date.isReal = true
  year_low : 0 ≤ date.year
  year_high : date.year ≤ 9999
  hour_high : hour ≤ 23
  minute_high : minute ≤ 59
  second_high : second ≤ 60
  separator_eq : separator = Ascii.upperT ∨ separator = Ascii.space
  digits : ∀ digits ∈ fraction, digits.all isDigit = true

namespace Stamp

/-- The parts of a stamp, each number in as many digits as its field has. -/
def parts (t : Stamp) : StampParts where
  year := padded 4 t.date.year.toNat
  month := padded 2 t.date.month.toNat
  day := padded 2 t.date.day.toNat
  separator := t.separator
  hour := padded 2 t.hour
  minute := padded 2 t.minute
  second := padded 2 t.second
  rest := stampEnding t.fraction

/-- A stamp as it is written. -/
def text (t : Stamp) : Octets := t.parts.text

/-- The microseconds of the fraction: its first six digits, scaled. -/
def micros (t : Stamp) : Nat :=
  match t.fraction with
  | none => 0
  | some digits => digitsValue (digits.take 6) * 10 ^ (6 - digits.length)

/-- The civil time that a stamp stands for. -/
def civil (t : Stamp) : CivilTime where
  date := t.date
  hour := t.hour
  minute := t.minute
  second := t.second
  micros := t.micros

variable (t : Stamp)

theorem sized : t.parts.Sized where
  year := length_padded 4 _
  month := length_padded 2 _
  day := length_padded 2 _
  separator := t.separator_eq
  hour := length_padded 2 _
  minute := length_padded 2 _
  second := length_padded 2 _

theorem digitsValue_zeros (count : Nat) : digitsValue (List.replicate count Ascii.zero) = 0 := by
  induction count with
  | zero => rfl
  | succ count ih =>
    rw [List.replicate_succ', digitsValue_concat, ih]
    rfl

/-- Filling up with zeros and cutting after six digits scales the digits that are there. -/
theorem fractionMicros_eq (digits : Octets) :
    CivilTime.fractionMicros digits = digitsValue (digits.take 6) * 10 ^ (6 - digits.length) := by
  unfold CivilTime.fractionMicros
  rw [List.take_append, List.take_replicate, digitsValue_append, digitsValue_zeros, List.length_replicate]
  have hmin : min (6 - digits.length) 6 = 6 - digits.length := by omega
  rw [hmin, Nat.add_zero]
  push_cast
  rfl

theorem takeWhile_ending {digits : Octets} (h : digits.all isDigit = true) :
    (digits ++ [Ascii.upperZ]).takeWhile isDigit = digits := by
  have hend : isDigit Ascii.upperZ = false := by decide
  rw [List.takeWhile_append_of_pos (List.all_eq_true.mp h), List.takeWhile_cons]
  simp [hend]

theorem restMicros_ending : StampParts.restMicros (stampEnding t.fraction) = t.micros := by
  have hdigits := t.digits
  unfold micros
  cases hfraction : t.fraction with
  | none => rfl
  | some digits =>
    have hall := hdigits digits (by rw [hfraction]; rfl)
    change CivilTime.fractionMicros ((digits ++ [Ascii.upperZ]).takeWhile isDigit) = _
    rw [takeWhile_ending hall, fractionMicros_eq]
    push_cast
    rfl

theorem spells : t.parts.Spells t.civil := by
  obtain ⟨⟨hmonth, hmonth'⟩, hday, hlast⟩ := Date.real_bounds t.real
  have hlength := (@Date.monthLength_bounds t.date.year t.date.month hmonth hmonth').2
  have hyear := t.year_low
  have hyear' := t.year_high
  have hhour := t.hour_high
  have hminute := t.minute_high
  have hsecond := t.second_high
  have hfield : ∀ {width : Nat} {i : Int}, 0 < width → 0 ≤ i → i.toNat < 10 ^ width →
      wholeInt? (padded width i.toNat) = some i := by
    intro width i hwidth hi hlt
    rw [wholeInt?_padded hwidth hlt, Int.toNat_of_nonneg hi]
  constructor
  case year => exact hfield (by decide) hyear (by omega)
  case month => exact hfield (by decide) (by omega) (by omega)
  case day => exact hfield (by decide) (by omega) (by omega)
  case hour => exact wholeInt?_padded (by decide) (by omega)
  case minute => exact wholeInt?_padded (by decide) (by omega)
  case second => exact wholeInt?_padded (by decide) (by omega)
  case micros => exact t.restMicros_ending.symm
  case real =>
    have hreal := t.real
    simp [civil, CivilTime.isReal, hreal]
    omega

theorem ofText?_text : CivilTime.ofText? t.text = some t.civil := t.sized.ofText?_eq_some_iff.mpr t.spells

/-- The microseconds from the start of 1970 to a time of day some days later. -/
def microsAt (days : Int) : Int :=
  (86400 * days + 3600 * t.hour + 60 * t.minute + t.second) * 1000000 + t.micros

theorem ofIso8601?_text : Instant.ofIso8601? t.text = Instant.ofNanos? (1000 * t.microsAt t.date.toDays) := by
  have hmicros : t.civil.toMicros = t.microsAt t.date.toDays := by
    simp only [CivilTime.toMicros, civil, microsAt]
    omega
  rw [Instant.ofIso8601?, ofText?_text, Option.bind_some, CivilTime.toInstant?, Instant.ofUnits?_eq (by decide),
    hmicros, Int.mul_comm]
  rfl

end Stamp

namespace Instant

/-- The first and the last day of the clock lie in years of four digits. -/
theorem year_bounds (i : Instant) : 0 ≤ (Date.ofDays (i.ns / 1000 / 86400000000)).year ∧
    (Date.ofDays (i.ns / 1000 / 86400000000)).year ≤ 9999 := by
  have hlow := i.low
  have hhigh := i.high
  simp only [int64Min, int64Max] at hlow hhigh
  obtain ⟨hreal, hdays⟩ := Date.ofDays_spec (i.ns / 1000 / 86400000000)
  have hbounds := Date.toDays_bounds hreal
  rw [hdays] at hbounds
  generalize (Date.ofDays (i.ns / 1000 / 86400000000)).year = year at hbounds ⊢
  unfold Date.daysBeforeYear Date.yearLength at hbounds
  split at hbounds <;> omega

/-- An instant as it is written: its day, the time of this day and six digits of the second. -/
def stamp (i : Instant) : Stamp where
  date := Date.ofDays (i.ns / 1000 / 86400000000)
  hour := (i.ns / 1000 / 3600000000 % 24).toNat
  minute := (i.ns / 1000 / 60000000 % 60).toNat
  second := (i.ns / 1000 / 1000000 % 60).toNat
  separator := Ascii.upperT
  fraction := some (padded 6 (i.ns / 1000 % 1000000).toNat)
  real := (Date.ofDays_spec _).1
  year_low := i.year_bounds.1
  year_high := i.year_bounds.2
  hour_high := by omega
  minute_high := by omega
  second_high := by omega
  separator_eq := .inl rfl
  digits := by
    rintro digits hdigits
    obtain rfl := Option.some.inj hdigits
    exact all_padded 6 _

theorem ofIso8601?_stamp {i : Instant} (h : i.ns % 1000 = 0) : ofIso8601? i.stamp.text = some i := by
  have hmicros : (i.stamp.micros : Int) = i.ns / 1000 % 1000000 := by
    change ((digitsValue ((padded 6 _).take 6) * 10 ^ (6 - (padded 6 _).length) : Nat) : Int) = _
    have hwhole : (padded 6 (i.ns / 1000 % 1000000).toNat).take 6 = padded 6 (i.ns / 1000 % 1000000).toNat :=
      List.take_of_length_le (by rw [length_padded])
    rw [hwhole, length_padded, digitsValue_padded]
    omega
  have htotal : 1000 * i.stamp.microsAt i.stamp.date.toDays = i.ns := by
    rw [Stamp.microsAt, hmicros]
    simp only [stamp, Date.toDays_ofDays]
    omega
  rw [Stamp.ofIso8601?_text, htotal, ofNanos?_eq_some i.low i.high]

end Instant

/-- The texts that are written stamps. -/
def IsStamp (s : Octets) : Prop := ∃ t : Stamp, t.text = s

/-- A text goes on after the seconds the way a stamp does. -/
def EndsAsStamp (s : Octets) : Prop :=
  ∃ fraction : Option Octets, (∀ digits ∈ fraction, digits.all isDigit = true) ∧ s.drop 19 = stampEnding fraction

/-- No field of a text has a sign. -/
def IsUnsigned (s : Octets) : Prop := ∀ field ∈ (StampParts.ofText s).fields, Ascii.minus ∉ field

namespace Stamp

theorem endsAsStamp (t : Stamp) : EndsAsStamp t.text :=
  ⟨t.fraction, t.digits, congrArg StampParts.rest t.sized.ofText⟩

theorem isUnsigned (t : Stamp) : IsUnsigned t.text := by
  have hpadded : ∀ width n, Ascii.minus ∉ padded width n := by
    intro width n hin
    have hdigit := List.all_eq_true.mp (all_padded width n) _ hin
    rw [minus_not_digit] at hdigit
    cases hdigit
  intro field hfield
  have hparts : StampParts.ofText t.text = t.parts := t.sized.ofText
  rw [hparts] at hfield
  simp only [StampParts.fields, parts, List.mem_cons, List.not_mem_nil, or_false] at hfield
  obtain rfl | rfl | rfl | rfl | rfl | rfl := hfield <;> exact hpadded _ _

end Stamp

/-- Parts without signs that end as a stamp are the parts of one. -/
theorem StampParts.Spells.isStamp {p : StampParts} {c : CivilTime} (hsized : p.Sized) (h : p.Spells c)
    (hunsigned : IsUnsigned p.text) (hend : EndsAsStamp p.text) : IsStamp p.text := by
  obtain ⟨fraction, hdigits, hrest⟩ := hend
  have hparts : ofText p.text = p := hsized.ofText
  have hrest : p.rest = stampEnding fraction := (congrArg StampParts.rest hparts).symm.trans hrest
  have hfield : ∀ field ∈ p.fields, ∀ i, wholeInt? field = some i → 0 ≤ i ∧ padded field.length i.toNat = field := by
    intro field hin i hi
    have hsign : Ascii.minus ∉ field := hunsigned field (by rw [hparts]; exact hin)
    obtain ⟨hall, rfl⟩ := digits_of_wholeInt? hi hsign
    rw [Int.toNat_natCast]
    exact ⟨by omega, padded_digitsValue hall⟩
  obtain ⟨hyear, hyear'⟩ := hfield p.year (by simp [fields]) _ h.year
  obtain ⟨hmonth, hmonth'⟩ := hfield p.month (by simp [fields]) _ h.month
  obtain ⟨hday, hday'⟩ := hfield p.day (by simp [fields]) _ h.day
  obtain ⟨hhour, hhour'⟩ := hfield p.hour (by simp [fields]) _ h.hour
  obtain ⟨hminute, hminute'⟩ := hfield p.minute (by simp [fields]) _ h.minute
  obtain ⟨hsecond, hsecond'⟩ := hfield p.second (by simp [fields]) _ h.second
  have hwide := natAbs_lt_of_wholeInt? h.year
  rw [hsized.year] at hwide hyear'
  rw [hsized.month] at hmonth'
  rw [hsized.day] at hday'
  rw [hsized.hour] at hhour'
  rw [hsized.minute] at hminute'
  rw [hsized.second] at hsecond'
  have hreal := h.real
  simp only [CivilTime.isReal, Bool.and_eq_true, decide_eq_true_eq] at hreal
  obtain ⟨⟨⟨hdate, hhour23⟩, hminute59⟩, hsecond60⟩ := hreal
  let t : Stamp :=
    { date := c.date, hour := c.hour.toNat, minute := c.minute.toNat, second := c.second.toNat,
      separator := p.separator, fraction, real := hdate, year_low := hyear, year_high := by omega,
      hour_high := by omega, minute_high := by omega, second_high := by omega,
      separator_eq := hsized.separator, digits := hdigits }
  refine ⟨t, congrArg StampParts.text ?_⟩
  obtain ⟨year, month, day, separator, hour, minute, second, rest⟩ := p
  simp only at hyear' hmonth' hday' hhour' hminute' hsecond' hrest
  simp only [t, Stamp.parts, hyear', hmonth', hday', hhour', hminute', hsecond', hrest]

namespace Instant

theorem isSome_toInstant? (c : CivilTime) :
    c.toInstant?.isSome = true ↔ int64Min ≤ 1000 * c.toMicros ∧ 1000 * c.toMicros ≤ int64Max := by
  rw [CivilTime.toInstant?, ofUnits?_eq (by decide), Int.mul_comm]
  unfold ofNanos?
  split
  next h => exact iff_of_true rfl h
  next h => exact iff_of_false Bool.false_ne_true h

/-- A text is read just in case it is laid out as a civil time in the range of the clock. -/
theorem isSome_ofIso8601?_iff (s : Octets) : (ofIso8601? s).isSome = true ↔ ∃ (p : StampParts) (c : CivilTime),
    p.Sized ∧ p.text = s ∧ p.Spells c ∧ int64Min ≤ 1000 * c.toMicros ∧ 1000 * c.toMicros ≤ int64Max := by
  unfold ofIso8601?
  constructor
  · intro h
    cases hc : CivilTime.ofText? s with
    | none =>
      rw [hc] at h
      cases h
    | some c =>
      rw [hc, Option.bind_some] at h
      obtain ⟨p, hsized, htext, hspells⟩ := StampParts.ofText?_eq_some_iff.mp hc
      exact ⟨p, c, hsized, htext, hspells, (isSome_toInstant? c).mp h⟩
  · rintro ⟨p, c, hsized, htext, hspells, hin⟩
    rw [StampParts.ofText?_eq_some_iff.mpr ⟨p, hsized, htext, hspells⟩, Option.bind_some]
    exact (isSome_toInstant? c).mpr hin

/-- What is read: a text that is laid out as a real civil time in the range of the clock. A text that is read is
a stamp just in case no field of it has a sign and it ends, after the seconds, as a stamp does. -/
theorem read_stamp_iff (s : Octets) :
    ((ofIso8601? s).isSome = true ↔ ∃ (p : StampParts) (c : CivilTime), p.Sized ∧ p.text = s ∧ p.Spells c ∧
      int64Min ≤ 1000 * c.toMicros ∧ 1000 * c.toMicros ≤ int64Max) ∧
    ((ofIso8601? s).isSome = true → (IsStamp s ↔ IsUnsigned s ∧ EndsAsStamp s)) := by
  refine ⟨isSome_ofIso8601?_iff s, fun hread => ⟨?_, ?_⟩⟩
  · rintro ⟨t, rfl⟩
    exact ⟨t.isUnsigned, t.endsAsStamp⟩
  · rintro ⟨hunsigned, hend⟩
    obtain ⟨p, c, hsized, rfl, hspells, -⟩ := (isSome_ofIso8601?_iff s).mp hread
    exact hspells.isStamp hsized hunsigned hend

def zuluText : Octets := octets "2025-10-09 12:34:60.7891234Z"

theorem zuluText_stamp : (ofIso8601? zuluText).isSome = true ∧ IsStamp zuluText := by
  have hread : (ofIso8601? zuluText).isSome = true := by decide +kernel
  have hunsigned : IsUnsigned zuluText := by
    unfold IsUnsigned
    decide +kernel
  have hend : EndsAsStamp zuluText := by
    refine ⟨some (octets "7891234"), fun digits hdigits => ?_, by decide +kernel⟩
    obtain rfl := Option.some.inj hdigits
    decide +kernel
  exact ⟨hread, ((read_stamp_iff zuluText).2 hread).mpr ⟨hunsigned, hend⟩⟩

/-- A time on a clock two hours ahead, which its ending tells and nothing heeds. -/
def offsetText : Octets := octets "2025-10-09T12:34:56+02:00"

theorem offsetText_read : ¬∀ s, (ofIso8601? s).isSome = true → IsStamp s := by
  intro hclaim
  have hread : (ofIso8601? offsetText).isSome = true := by decide +kernel
  obtain ⟨t, ht⟩ := hclaim offsetText hread
  obtain ⟨fraction, -, hend⟩ := t.endsAsStamp
  have hlast : (stampEnding fraction).getLast? = some Ascii.upperZ := by
    cases fraction with
    | none => rfl
    | some digits => simp [stampEnding, List.getLast?_cons]
  rw [← hend, ht] at hlast
  exact absurd hlast (by decide +kernel)

/-- Every stamp is read as the instant that it names, if the clock has it: its date is some whole number of days
away from the first day of 1970, its time of day and the first six digits of its fraction follow. Nothing
overflows on the way, whatever text is read. Every instant of whole microseconds is read back from its stamp. -/
theorem stamps_read_exactly :
    (∀ t : Stamp, ∃! days, Date.ofDays days = t.date) ∧
    (∀ (t : Stamp) (days : Int), Date.ofDays days = t.date →
      ofIso8601? t.text = ofNanos? (1000 * t.microsAt days)) ∧
    (∀ s, Within64.iso8601 s = some (ofIso8601? s)) ∧
    ∀ i : Instant, i.ns % 1000 = 0 → ofIso8601? i.stamp.text = some i := by
  refine ⟨fun t => ⟨t.date.toDays, Date.ofDays_toDays t.real, fun days hdays => ?_⟩, fun t days hdays => ?_,
    Within64.iso8601_eq, fun i hi => ofIso8601?_stamp hi⟩
  · rw [← hdays, Date.toDays_ofDays]
  · have hnumber : t.date.toDays = days := by rw [← hdays, Date.toDays_ofDays]
    rw [t.ofIso8601?_text, hnumber]

/-- The second that is added to the last day before 1970, and more digits than count. -/
def addedSecond : Stamp where
  date := { year := 1969, month := 12, day := 31 }
  hour := 23
  minute := 59
  second := 60
  separator := Ascii.space
  fraction := some (octets "1234567")
  real := by decide
  year_low := by decide
  year_high := by decide
  hour_high := by decide
  minute_high := by decide
  second_high := by decide
  separator_eq := .inr rfl
  digits := by
    rintro digits hdigits
    obtain rfl := Option.some.inj hdigits
    decide +kernel

/-- The first whole microsecond of the clock. -/
def firstMicro : Instant where
  ns := -9223372036854775000

theorem addedSecond_read : Date.ofDays (-1) = addedSecond.date ∧
    ofIso8601? addedSecond.text = ofNanos? (1000 * addedSecond.microsAt (-1)) ∧
    firstMicro.ns % 1000 = 0 ∧ ofIso8601? firstMicro.stamp.text = some firstMicro := by
  obtain ⟨-, hread, -, hback⟩ := stamps_read_exactly
  have hdate : Date.ofDays (-1) = addedSecond.date := by decide
  have hwhole : firstMicro.ns % 1000 = 0 := by decide
  exact ⟨hdate, hread addedSecond (-1) hdate, hwhole, hback firstMicro hwhole⟩

end Instant

end QuoteFeed
