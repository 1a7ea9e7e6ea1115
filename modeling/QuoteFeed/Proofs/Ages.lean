import QuoteFeed.Proofs.LastQuotes

/-!
Ages in milliseconds. Both instants are cut toward 1970 before one is taken from the other, so that an age is off by
less than one millisecond where they lie on the same side of 1970, and by less than two where they do not.
-/

namespace QuoteFeed

namespace Instant

variable {start finish : Instant} {limit : Int}

/-- A cut takes off less than a millisecond, on the side away from 1970. -/
theorem toMillis_cases (t : Instant) :
    (0 ≤ t.ns ∧ 0 ≤ t.toMillis ∧ t.toMillis * 1000000 ≤ t.ns ∧ t.ns < t.toMillis * 1000000 + 1000000) ∨
      (t.ns < 0 ∧ t.toMillis ≤ 0 ∧ t.ns ≤ t.toMillis * 1000000 ∧ t.toMillis * 1000000 - 1000000 < t.ns) := by
  by_cases h : 0 ≤ t.ns
  · have hcut : t.toMillis = t.ns / 1000000 := Int.tdiv_eq_ediv_of_nonneg h
    omega
  · have hneg : (-t.ns).tdiv 1000000 = -t.toMillis := Int.neg_tdiv ..
    have hcut : (-t.ns).tdiv 1000000 = -t.ns / 1000000 := Int.tdiv_eq_ediv_of_nonneg (by omega)
    omega

theorem toMillis_mono (h : start.ns ≤ finish.ns) : start.toMillis ≤ finish.toMillis := by
  have hs := toMillis_cases start
  have hf := toMillis_cases finish
  omega

/-- A cut leaves a millionth of what 64 bits hold. -/
theorem toMillis_bounds (t : Instant) : -9223372036854 ≤ t.toMillis ∧ t.toMillis ≤ 9223372036854 := by
  have hlow : -9223372036854775808 ≤ t.ns := t.low
  have hhigh : t.ns ≤ 9223372036854775807 := t.high
  have ht := toMillis_cases t
  omega

theorem inInt64_of_bounds {i : Int} (h : -18446744073708 ≤ i ∧ i ≤ 18446744073708) : inInt64 i = true := by
  rw [inInt64, Bool.and_eq_true, decide_eq_true_eq, decide_eq_true_eq]
  simp only [int64Min, int64Max]
  omega

/-- Neither the cuts nor the subtraction ever leave 64 bits. -/
theorem millisBetween_inInt64 (start finish : Instant) :
    inInt64 start.toMillis = true ∧ inInt64 finish.toMillis = true ∧ inInt64 (start.millisBetween finish) = true := by
  have hs := toMillis_bounds start
  have hf := toMillis_bounds finish
  have hgap : start.millisBetween finish = finish.toMillis - start.toMillis := rfl
  refine ⟨inInt64_of_bounds ?_, inInt64_of_bounds ?_, inInt64_of_bounds ?_⟩
  · omega
  · omega
  · omega

theorem millisBetween_mono {later : Instant} (h : finish.ns ≤ later.ns) :
    start.millisBetween finish ≤ start.millisBetween later := by
  have hmono := toMillis_mono h
  have hgap : start.millisBetween finish = finish.toMillis - start.toMillis := rfl
  have hlater : start.millisBetween later = later.toMillis - start.toMillis := rfl
  omega

/-- On one side of 1970 the cuts can add almost a millisecond to an age, which is the one by which it exceeds the limit;
across 1970 they only take something off. -/
theorem lt_of_lt_millisBetween (hlimit : 0 ≤ limit) (h : limit < start.millisBetween finish) :
    limit * 1000000 < finish.ns - start.ns := by
  have hgap : start.millisBetween finish = finish.toMillis - start.toMillis := rfl
  have horder : start.ns < finish.ns := by
    apply Int.lt_of_not_ge
    intro hge
    have hmono := toMillis_mono hge
    omega
  have hs := toMillis_cases start
  have hf := toMillis_cases finish
  omega

/-- The cuts take less than two milliseconds off an age. -/
theorem lt_millisBetween (h : (limit + 2) * 1000000 ≤ finish.ns - start.ns) : limit < start.millisBetween finish := by
  have hgap : start.millisBetween finish = finish.toMillis - start.toMillis := rfl
  have hs := toMillis_cases start
  have hf := toMillis_cases finish
  omega

/-- Two nanoseconds less than two milliseconds beyond a limit. -/
example : millisBetween { ns := -999999 } { ns := 60000999999 } = 60000 := by decide

end Instant

/-- Data that is found stale is older than a limit, and data that is two milliseconds older than it is found stale. -/
structure JudgedByAge (limit : Int) (start finish : Instant) (stale : Bool) : Prop where
  sound : 0 ≤ limit → stale = true → limit * 1000000 < finish.ns - start.ns
  complete : (limit + 2) * 1000000 ≤ finish.ns - start.ns → stale = true

theorem judgedByAge_millisBetween (limit : Int) (start finish : Instant) :
    JudgedByAge limit start finish (limit < start.millisBetween finish) where
  sound hlimit h := Instant.lt_of_lt_millisBetween hlimit (of_decide_eq_true h)
  complete h := decide_eq_true (Instant.lt_millisBetween h)

namespace PriceBoard

variable {b : PriceBoard} {id : Octets} {q p : Quote} {limit : Int} {now : Instant}

theorem isStale_mono {earlier later : Int} {sooner : Instant} (hlimit : earlier ≤ later) (hnow : sooner.ns ≤ now.ns)
    (h : b.isStale id later sooner = true) : b.isStale id earlier now = true := by
  cases hlast : b.last? id with
  | none => exact isStale_of_unknown hlast
  | some q =>
    rw [isStale_of_known hlast] at h ⊢
    have hgap : q.time.millisBetween sooner ≤ q.time.millisBetween now := Instant.millisBetween_mono hnow
    have hlt := of_decide_eq_true h
    exact decide_eq_true (by omega)

/-- Whatever is on a board: the gaps it forms stay within 64 bits. What it finds stale, when asked or by the signal of
a new quote, is older than the limit, and what is two milliseconds older than the limit it finds stale. What is stale
stays so at a later time and for a smaller limit, and what is unknown always is. -/
theorem staleness_to_the_millisecond (b : PriceBoard) :
    (∀ start finish : Instant, inInt64 start.toMillis = true ∧ inInt64 finish.toMillis = true ∧
      inInt64 (start.millisBetween finish) = true) ∧
    (∀ id q limit now, b.last? id = some q → JudgedByAge limit q.time now (b.isStale id limit now)) ∧
    (∀ p q, b.last? p.market = some q →
      JudgedByAge b.staleLimit q.time p.time (b.update p).1.stale.isSome) ∧
    (∀ id (limit smaller : Int) (now later : Instant), smaller ≤ limit → now.ns ≤ later.ns →
      b.isStale id limit now = true → b.isStale id smaller later = true) ∧
    ∀ id limit now, b.last? id = none → b.isStale id limit now = true := by
  refine ⟨Instant.millisBetween_inInt64, fun id q limit now h => ?_, fun p q h => ?_,
    fun id limit smaller now later hlimit hnow h => isStale_mono hlimit hnow h,
    fun id limit now h => isStale_of_unknown h⟩
  · rw [isStale_of_known h]
    exact judgedByAge_millisBetween limit q.time now
  · rw [stale_of_known h]
    exact judgedByAge_millisBetween b.staleLimit q.time p.time

/-- A quote from the last millisecond before 1970. -/
def dawnQuote : Quote :=
  { market := octets "A", price := .ofInt 7, time := { ns := -999999 }, volume := .ofInt 0, change := .ofInt 0 }

/-- A quote of the same instrument, two milliseconds beyond the usual limit later. -/
def noonQuote : Quote := { dawnQuote with time := { ns := 60001000001 } }

def dawnBoard : PriceBoard := { quotes := [dawnQuote] }

theorem dawnBoard_judges : (dawnBoard.last? noonQuote.market = some dawnQuote ∧
      (dawnBoard.update noonQuote).1.stale.isSome = true ∧
      dawnBoard.staleLimit * 1000000 < noonQuote.time.ns - dawnQuote.time.ns) ∧
    (dawnBoard.isStale dawnQuote.market 60000 noonQuote.time = true ∧
      (60000 : Int) * 1000000 < noonQuote.time.ns - dawnQuote.time.ns) ∧
    dawnBoard.isStale dawnQuote.market 50000 (.ofWrapped int64Max) = true ∧
    (dawnBoard.last? (octets "B") = none ∧ dawnBoard.isStale (octets "B") int64Max dawnQuote.time = true) := by
  obtain ⟨-, hasked, hsignal, hmono, hunknown⟩ := staleness_to_the_millisecond dawnBoard
  have hlast : dawnBoard.last? dawnQuote.market = some dawnQuote := by decide +kernel
  have hother : dawnBoard.last? (octets "B") = none := by decide +kernel
  have hstale := (hasked _ _ 60000 noonQuote.time hlast).complete (by decide)
  have hgiven := (hsignal noonQuote _ hlast).complete (by decide)
  refine ⟨⟨hlast, hgiven, (hsignal noonQuote _ hlast).sound (by decide) hgiven⟩,
    ⟨hstale, (hasked _ _ _ _ hlast).sound (by decide) hstale⟩,
    hmono _ 60000 50000 noonQuote.time _ (by decide) ?_ hstale, hother, hunknown _ int64Max dawnQuote.time hother⟩
  decide

end PriceBoard

end QuoteFeed
