import QuoteFeed.Calendar
import QuoteFeed.Proofs.Numerals
import Mathlib.Data.List.Basic

/-!
How a text is laid out as a civil time: six fields between their separators, and whatever follows them. A text is
read just in case it is laid out so, each field spells an integer and the civil time is real.
-/

namespace QuoteFeed

/-- The parts of a text that is laid out as a civil time. -/
structure StampParts where
  year : Octets
  month : Octets
  day : Octets
  separator : UInt8
  hour : Octets
  minute : Octets
  second : Octets
  rest : Octets

namespace StampParts

/-- The text that consists of some parts. -/
def text (p : StampParts) : Octets :=
  p.year ++ Ascii.minus :: (p.month ++ Ascii.minus :: (p.day ++ p.separator :: (p.hour ++ Ascii.colon ::
    (p.minute ++ Ascii.colon :: (p.second ++ p.rest)))))

/-- The fields of some parts, in order. -/
def fields (p : StampParts) : List Octets := [p.year, p.month, p.day, p.hour, p.minute, p.second]

/-- The fields have the widths of the layout, and a `T` or a blank stands between the date and the time. -/
structure Sized (p : StampParts) : Prop where
  year : p.year.length = 4
  month : p.month.length = 2
  day : p.day.length = 2
  separator : p.separator = Ascii.upperT ∨ p.separator = Ascii.space
  hour : p.hour.length = 2
  minute : p.minute.length = 2
  second : p.second.length = 2

end StampParts

/-- Some octets of a text from a place on. -/
def fieldText (s : Octets) (start count : Nat) : Octets := (s.drop start).take count

/-- The parts that stand where the layout has them. -/
def StampParts.ofText (s : Octets) : StampParts where
  year := fieldText s 0 4
  month := fieldText s 5 2
  day := fieldText s 8 2
  separator := s.getD 10 0
  hour := fieldText s 11 2
  minute := fieldText s 14 2
  second := fieldText s 17 2
  rest := s.drop 19

namespace StampParts

variable {p : StampParts} {s : Octets} {c : CivilTime}

theorem Sized.hasShape (h : p.Sized) : CivilTime.hasShape p.text = true := by
  obtain ⟨y1, y2, y3, y4, hyear⟩ := List.length_eq_four.mp h.year
  obtain ⟨m1, m2, hmonth⟩ := List.length_eq_two.mp h.month
  obtain ⟨d1, d2, hday⟩ := List.length_eq_two.mp h.day
  obtain ⟨h1, h2, hhour⟩ := List.length_eq_two.mp h.hour
  obtain ⟨n1, n2, hminute⟩ := List.length_eq_two.mp h.minute
  obtain ⟨s1, s2, hsecond⟩ := List.length_eq_two.mp h.second
  have hseparator := h.separator
  simp only [CivilTime.hasShape, text, hyear, hmonth, hday, hhour, hminute, hsecond]
  simpa using hseparator

/-- The parts of a text that some parts make up are these parts. -/
theorem Sized.ofText (h : p.Sized) : ofText p.text = p := by
  obtain ⟨year, month, day, separator, hour, minute, second, rest⟩ := p
  obtain ⟨y1, y2, y3, y4, rfl⟩ := List.length_eq_four.mp h.year
  obtain ⟨m1, m2, rfl⟩ := List.length_eq_two.mp h.month
  obtain ⟨d1, d2, rfl⟩ := List.length_eq_two.mp h.day
  obtain ⟨h1, h2, rfl⟩ := List.length_eq_two.mp h.hour
  obtain ⟨n1, n2, rfl⟩ := List.length_eq_two.mp h.minute
  obtain ⟨s1, s2, rfl⟩ := List.length_eq_two.mp h.second
  rfl

theorem drop_eq_field {b : UInt8} {start count : Nat} (h : s[start + count]? = some b) :
    s.drop start = fieldText s start count ++ b :: s.drop (start + count + 1) := by
  obtain ⟨hlength, hb⟩ := List.getElem?_eq_some_iff.mp h
  have hrest : (s.drop start).drop count = b :: s.drop (start + count + 1) := by
    rw [List.drop_drop, List.drop_eq_getElem_cons hlength, hb]
  rw [fieldText, ← hrest, List.take_append_drop]

theorem sized_of_hasShape (h : CivilTime.hasShape s = true) : (ofText s).Sized ∧ (ofText s).text = s := by
  simp only [CivilTime.hasShape, Bool.and_eq_true, Bool.or_eq_true, decide_eq_true_eq] at h
  obtain ⟨⟨⟨⟨⟨h4, h7⟩, h10⟩, h13⟩, h16⟩, hlength⟩ := h
  have hwidth : ∀ start count, start + count ≤ 19 → (fieldText s start count).length = count := by
    intro start count hle
    rw [fieldText, List.length_take, List.length_drop]
    omega
  have hseparator : s[10]? = some (s.getD 10 0) := by
    have hlt : 10 < s.length := by omega
    simp [hlt]
  constructor
  · refine ⟨hwidth 0 4 (by omega), hwidth 5 2 (by omega), hwidth 8 2 (by omega), ?_, hwidth 11 2 (by omega),
      hwidth 14 2 (by omega), hwidth 17 2 (by omega)⟩
    rw [hseparator] at h10
    exact h10.imp Option.some.inj Option.some.inj
  · have hlast : s.drop 17 = fieldText s 17 2 ++ s.drop 19 := by
      have hrest : (s.drop 17).drop 2 = s.drop 19 := List.drop_drop
      rw [fieldText, ← hrest, List.take_append_drop]
    have hyear := @drop_eq_field s _ 0 4 h4
    have hmonth := @drop_eq_field s _ 5 2 h7
    have hday := @drop_eq_field s _ 8 2 hseparator
    have hhour := @drop_eq_field s _ 11 2 h13
    have hminute := @drop_eq_field s _ 14 2 h16
    rw [hlast] at hminute
    rw [hminute] at hhour
    rw [hhour] at hday
    rw [hday] at hmonth
    rw [hmonth] at hyear
    exact hyear.symm

/-- The microseconds in what follows the fields: those of a fraction, if there is one. -/
def restMicros : Octets → Int
  | Ascii.point :: rest => CivilTime.fractionMicros (rest.takeWhile isDigit)
  | _ => 0

/-- The fields spell the numbers of a real civil time. -/
structure Spells (p : StampParts) (c : CivilTime) : Prop where
  year : wholeInt? p.year = some c.date.year
  month : wholeInt? p.month = some c.date.month
  day : wholeInt? p.day = some c.date.day
  hour : wholeInt? p.hour = some c.hour
  minute : wholeInt? p.minute = some c.minute
  second : wholeInt? p.second = some c.second
  micros : c.micros = restMicros p.rest
  real : c.isReal = true

/-- A text is read part by part. -/
theorem ofText?_eq (s : Octets) : CivilTime.ofText? s =
    (guard (CivilTime.hasShape s = true) : Option Unit).bind fun _ => (wholeInt? (ofText s).year).bind fun year =>
      (wholeInt? (ofText s).month).bind fun month => (wholeInt? (ofText s).day).bind fun day =>
      (wholeInt? (ofText s).hour).bind fun hour => (wholeInt? (ofText s).minute).bind fun minute =>
      (wholeInt? (ofText s).second).bind fun second =>
      let c : CivilTime := { date := { year, month, day }, hour, minute, second, micros := restMicros (ofText s).rest }
      (guard (c.isReal = true) : Option Unit).bind fun _ => some c := rfl

theorem guard_eq_some {p : Prop} [Decidable p] {u : Unit} : (guard p : Option Unit) = some u ↔ p := by
  by_cases h : p <;> simp [guard, h]

/-- What is read from a text of some parts is what the parts spell. -/
theorem Sized.ofText?_eq_some_iff (h : p.Sized) : CivilTime.ofText? p.text = some c ↔ p.Spells c := by
  rw [ofText?_eq, h.ofText, h.hasShape]
  simp only [Option.bind_eq_some_iff, guard_eq_some]
  constructor
  · rintro ⟨_, -, year, hyear, month, hmonth, day, hday, hour, hhour, minute, hminute, second, hsecond, _, hreal, hc⟩
    obtain rfl := Option.some.inj hc
    exact ⟨hyear, hmonth, hday, hhour, hminute, hsecond, rfl, hreal⟩
  · obtain ⟨date, hour, minute, second, micros⟩ := c
    rintro ⟨hyear, hmonth, hday, hhour, hminute, hsecond, rfl, hreal⟩
    exact ⟨(), trivial, _, hyear, _, hmonth, _, hday, _, hhour, _, hminute, _, hsecond, (), hreal, rfl⟩

theorem ofText?_eq_some_iff : CivilTime.ofText? s = some c ↔ ∃ p : StampParts, p.Sized ∧ p.text = s ∧ p.Spells c := by
  constructor
  · intro hc
    have hshape : CivilTime.hasShape s = true := by
      rw [ofText?_eq, Option.bind_eq_some_iff] at hc
      obtain ⟨_, hguard, -⟩ := hc
      exact guard_eq_some.mp hguard
    obtain ⟨hsized, htext⟩ := sized_of_hasShape hshape
    rw [← htext] at hc
    exact ⟨ofText s, hsized, htext, hsized.ofText?_eq_some_iff.mp hc⟩
  · rintro ⟨p, hsized, rfl, hspells⟩
    exact hsized.ofText?_eq_some_iff.mpr hspells

end StampParts

end QuoteFeed
