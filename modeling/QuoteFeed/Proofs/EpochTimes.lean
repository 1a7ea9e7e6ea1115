import QuoteFeed.Message
import QuoteFeed.Proofs.Magnitudes
import QuoteFeed.Proofs.Within64

/-!
Times as counts of milliseconds. A count may come as an integer, as its numeral or as a floating-point number that
it is nearest to; a frame says the same in every form, and no step towards its time leaves 64 bits.
-/

namespace QuoteFeed

namespace Json

/-- An object with a member put in, in place of one with the same key. -/
def withMember (j : Json) (key : Octets) (value : Json) : Json :=
  match j with
  | object members => object (insertMember key value members)
  | j => j

theorem find?_insertMember (key k : Octets) (value : Json) (members : List (Octets × Json)) :
    (insertMember key value members).find? (fun m => m.1 = k) =
      if key = k then some (key, value) else members.find? fun m => m.1 = k := by
  induction members with
  | nil =>
    by_cases hk : key = k
    · simp [insertMember, hk]
    · simp [insertMember, hk]
  | cons m rest ih =>
    obtain ⟨l, v⟩ := m
    by_cases hl : key = l
    · by_cases hk : key = k
      · simp [insertMember, hl, ← hk]
      · have hlk : ¬l = k := fun h => hk (hl.trans h)
        simp [insertMember, hl, hlk]
    · by_cases hbefore : key.before l = true
      · rw [insertMember, if_neg hl, if_pos hbefore, List.find?_cons]
        by_cases hk : key = k
        · simp [hk]
        · simp [hk]
      · rw [insertMember, if_neg hl, if_neg hbefore, List.find?_cons, List.find?_cons, ih]
        by_cases hlk : l = k
        · have hne : ¬key = k := fun h => hl (h.trans hlk.symm)
          simp [hlk, hne]
        · simp [hlk]

variable {j : Json} {key k : Octets} {value : Json}

theorem member?_withMember_self (hj : j.isObject = true) : (j.withMember key value).member? key = some value := by
  cases j with
  | object members => simp [withMember, member?, find?_insertMember]
  | _ => cases hj

theorem member?_withMember_of_ne (hne : key ≠ k) : (j.withMember key value).member? k = j.member? k := by
  cases j with
  | object members => simp [withMember, member?, find?_insertMember, hne]
  | _ => rfl

theorem isObject_withMember : (j.withMember key value).isObject = j.isObject := by
  cases j <;> rfl

/-- Two documents have the same members but for one. -/
def Beside (key : Octets) (j j' : Json) : Prop := ∀ other, key ≠ other → j'.member? other = j.member? other

theorem beside_withMember : Beside key j (j.withMember key value) := fun _ hne => member?_withMember_of_ne hne

namespace Beside

variable {j' : Json} {other type : Octets} {arrival : Instant} (h : Beside key j j')
include h

theorem typeOf (hkey : key ≠ octets "type") : Message.typeOf j' = Message.typeOf j := by
  rw [Message.typeOf, h _ hkey]
  rfl

theorem market (hkey : key ≠ octets "marketId") : Message.market type j' = Message.market type j := by
  rw [Message.market, h _ hkey]
  rfl

theorem numberField (hkey : key ≠ other) : Message.numberField other j' = Message.numberField other j := by
  rw [Message.numberField, Message.present?, h _ hkey]
  rfl

theorem timeField (hkey : key ≠ other) : Message.timeField other arrival j' = Message.timeField other arrival j := by
  rw [Message.timeField, Message.present?, h _ hkey]
  rfl

end Beside

end Json

namespace Instant

theorem ofMillis?_eq (ms : Int) : ofMillis? ms = ofNanos? (ms * 1000000) := ofUnits?_eq (by decide) ms

/-- The clock holds the milliseconds on either side of 1970 up to the same count. -/
theorem ofMillis?_of_le {ms : Int} (hlow : -9223372036854 ≤ ms) (hhigh : ms ≤ 9223372036854) :
    ∃ t : Instant, t.ns = ms * 1000000 ∧ ofMillis? ms = some t := by
  rw [ofMillis?_eq, ofNanos?_eq_some (by simp only [int64Min]; omega) (by simp only [int64Max]; omega)]
  exact ⟨_, rfl, rfl⟩

theorem ofMillis?_of_lt {ms : Int} (h : ms < -9223372036854 ∨ 9223372036854 < ms) : ofMillis? ms = none := by
  have hout : ¬(int64Min ≤ ms * 1000000 ∧ ms * 1000000 ≤ int64Max) := by
    simp only [int64Min, int64Max]
    omega
  rw [ofMillis?_eq, ofNanos?, dif_neg hout]

theorem getElem?_decimalInt {i : Int} {place : Nat} {b : UInt8} (h : (decimalInt i)[place + 1]? = some b) :
    isDigit b = true := by
  have hall := List.all_eq_true.mp (all_decimal i.natAbs)
  unfold decimalInt at h
  split at h
  next => exact hall b (List.mem_of_getElem? h)
  next => exact hall b (List.mem_of_getElem? h)

/-- No numeral of an integer is laid out as a civil time. -/
theorem ofIso8601?_decimalInt (i : Int) : ofIso8601? (decimalInt i) = none := by
  have hshape : CivilTime.hasShape (decimalInt i) = false := by
    by_contra h
    simp only [CivilTime.hasShape, Bool.not_eq_false, Bool.and_eq_true, decide_eq_true_eq] at h
    have hdigit := getElem?_decimalInt h.1.1.1.1.1
    rw [minus_not_digit] at hdigit
    cases hdigit
  rw [ofIso8601?, StampParts.ofText?_eq, hshape]
  rfl

end Instant

namespace Message

/-- The fault is one of the frame, and not one of reading or writing documents. -/
def Error.IsProtocol : Error → Prop
  | document _ => False
  | _ => True

theorem realTimeLimit_eq : ∃ rank : Fin Binary64.rankLimit, realTimeLimit = .finite false rank ∧
    Binary64.units rank = 9000000000000000000 * Binary64.unitsOfOne :=
  ⟨⟨4890691058569617664, by decide⟩, by decide +kernel, by decide +kernel⟩

/-- The limit of real times cuts off what is `9 * 10 ^ 18` or more, and what is not finite. -/
theorem less_realTimeLimit_iff {x : Binary64} : x.abs.less realTimeLimit = true ↔
    ∃ u : Int, x.toUnits = some u ∧ u.natAbs < 9000000000000000000 * Binary64.unitsOfOne := by
  obtain ⟨limit, hlimit, hunits⟩ := realTimeLimit_eq
  rw [hlimit, ← hunits]
  cases x with
  | nan => simp [Binary64.abs, Binary64.less, Binary64.place, Binary64.toUnits]
  | infinite negative =>
    have hrank := limit.isLt
    simp [Binary64.abs, Binary64.less, Binary64.place, Binary64.toUnits, hrank.le]
  | finite negative rank =>
    have horder : Binary64.units rank < Binary64.units limit ↔ rank.val < limit.val :=
      Binary64.units_strictMono.lt_iff_lt
    rw [Binary64.toUnits_finite]
    simp only [Binary64.abs, Binary64.less, Binary64.place, Option.some.injEq, exists_eq_left', Bool.false_eq_true,
      if_false, decide_eq_true_eq, Nat.cast_lt, ← horder]
    cases negative with
    | false => simp
    | true => simp

/-- A document stands for a count of milliseconds: as an integer, as the numeral of one, or as a floating-point
number that is an integer or has a nearest one. -/
inductive TellsMillis : Int → Json → Prop
  | unsigned (n : UInt64) : TellsMillis n.toNat (.unsigned n)
  | signed (i : Int64) : TellsMillis i.toInt (.signed i)
  | numeral (n : Int) : TellsMillis n (.text (decimalInt n))
  | whole {x : Binary64} {n : Int} (h : x.toUnits = some (n * Binary64.unitsOfOne)) : TellsMillis n (.real x)
  | nearest {x : Binary64} {u n : Int} (hx : x.toUnits = some u) (h : Binary64.IsNearest Binary64.unitsOfOne u n) :
    TellsMillis n (.real x)

variable {n : Int} {v : Json} {key : Octets}

/-- A count becomes its instant, or the fault of having none. -/
structure Becomes (n : Int) (r : Except Error Instant) : Prop where
  instant : ∀ t, Instant.ofMillis? n = some t → r = .ok t
  fault : Instant.ofMillis? n = none → ∃ e, r = .error e ∧ e.IsProtocol

theorem becomes_millisField (key : Octets) (n : Int) : Becomes n (millisField key n) := by
  constructor
  · intro t ht
    rw [millisField, ht]
    rfl
  · intro hnone
    rw [millisField, hnone]
    exact ⟨_, rfl, trivial⟩

theorem becomes_of_far {r : Except Error Instant} {e : Error} (hr : r = .error e) (he : e.IsProtocol)
    (hfar : n < -9223372036854 ∨ 9223372036854 < n) : Becomes n r := by
  have hnone := Instant.ofMillis?_of_lt hfar
  constructor
  · intro t ht
    rw [hnone] at ht
    cases ht
  · intro _
    exact ⟨e, hr, he⟩

theorem becomes_nearest {x : Binary64} {u : Int} (hx : x.toUnits = some u)
    (h : Binary64.IsNearest Binary64.unitsOfOne u n) : Becomes n (timestamp key (.real x)) := by
  have hround := (Binary64.round?_eq_some_iff hx).mpr h
  rw [timestamp]
  split
  next =>
    rw [hround]
    exact becomes_millisField key n
  next hless =>
    refine becomes_of_far rfl trivial ?_
    -- what the limit cuts off is further from zero than any count with an instant, and so is its nearest integer
    by_contra hnear
    have hcount : n.natAbs + 1 ≤ 9223372036855 := by omega
    refine hless (less_realTimeLimit_iff.mpr ⟨u, hx, ?_⟩)
    calc u.natAbs ≤ (n.natAbs + 1) * Binary64.unitsOfOne := h.natAbs_le Binary64.unitsOfOne_pos
      _ ≤ 9223372036855 * Binary64.unitsOfOne := Nat.mul_le_mul_right _ hcount
      _ < 9000000000000000000 * Binary64.unitsOfOne := Nat.mul_lt_mul_of_pos_right (by decide) Binary64.unitsOfOne_pos

theorem TellsMillis.becomes (h : TellsMillis n v) : Becomes n (timestamp key v) := by
  cases h with
  | unsigned n =>
    rw [timestamp]
    split
    next => exact becomes_millisField key _
    next hlarge =>
      simp only [int64Max] at hlarge
      exact becomes_of_far rfl trivial (.inr (by omega))
  | signed i => exact becomes_millisField key _
  | numeral n =>
    rw [timestamp, numeralInt64?_decimalInt]
    by_cases hin : inInt64 n = true
    · rw [if_pos hin]
      exact becomes_millisField key n
    · rw [if_neg hin]
      simp only [Instant.ofIso8601?_decimalInt]
      refine becomes_of_far rfl trivial ?_
      rw [inInt64, Bool.and_eq_true, decide_eq_true_eq, decide_eq_true_eq] at hin
      simp only [int64Min, int64Max] at hin
      omega
  | whole hx => exact becomes_nearest hx (Binary64.isNearest_self Binary64.unitsOfOne_pos n)
  | nearest hx h => exact becomes_nearest hx h

/-! ### Frames -/

/-- A message with another time; one whose time is not the venue's stays as it is. -/
def withTime (t : Instant) : Message → Message
  | price q => price { q with time := t }
  | trade d => trade { d with time := t }
  | m => m

variable {j : Json} {type k : Octets} {arrival t : Instant} {e : Error}

theorem isProtocol_of_market (h : market type j = .error e) : e.IsProtocol := by
  unfold market at h
  split at h
  next => cases h
  next =>
    cases h
    exact trivial

theorem isProtocol_of_numberField (h : numberField k j = .error e) : e.IsProtocol := by
  unfold numberField at h
  split at h
  next => cases h
  next v _ =>
    cases hnumber : finiteNumber? v with
    | none =>
      rw [hnumber] at h
      cases h
      exact trivial
    | some x =>
      rw [hnumber] at h
      cases h

theorem market_withMember (hkey : key ≠ octets "marketId") : market type (j.withMember key v) = market type j :=
  Json.beside_withMember.market hkey

theorem numberField_withMember (hkey : key ≠ k) : numberField k (j.withMember key v) = numberField k j :=
  Json.beside_withMember.numberField hkey

theorem typeOf_withMember (hkey : key ≠ octets "type") : typeOf (j.withMember key v) = typeOf j :=
  Json.beside_withMember.typeOf hkey

theorem timeField_null (hobject : j.isObject = true) :
    timeField key arrival (j.withMember key .null) = .ok arrival := by
  rw [timeField, present?, Json.member?_withMember_self hobject]
  rfl

theorem timeField_of_tells (hmember : j.member? key = some v) (h : TellsMillis n v) :
    timeField key arrival j = timestamp key v := by
  rw [timeField, present?, hmember]
  cases h <;> rfl

section Timed

variable (hobject : j.isObject = true)
include hobject

theorem priceOf_of_time (htime : timeField (octets "timestamp") arrival j = .ok t) :
    priceOf type arrival j = (priceOf type arrival (j.withMember (octets "timestamp") .null)).map
      fun q => { q with time := t } := by
  rw [priceOf, priceOf, htime, timeField_null hobject]
  simp (disch := decide +kernel) only [market_withMember, numberField_withMember]
  cases market type j with
  | error e => rfl
  | ok market =>
    cases numberField (octets "price") j with
    | error e => rfl
    | ok price =>
      cases numberField (octets "volume24h") j with
      | error e => rfl
      | ok volume => cases numberField (octets "changePercent") j <;> rfl

theorem tradeOf_of_time (htime : timeField (octets "timestamp") arrival j = .ok t) :
    tradeOf type arrival j = (tradeOf type arrival (j.withMember (octets "timestamp") .null)).map
      fun d => { d with time := t } := by
  rw [tradeOf, tradeOf, htime, timeField_null hobject]
  simp (disch := decide +kernel) only [market_withMember, numberField_withMember]
  cases market type j with
  | error e => rfl
  | ok market =>
    cases numberField (octets "price") j with
    | error e => rfl
    | ok price => cases numberField (octets "amount") j <;> rfl

end Timed

theorem priceOf_of_fault (htime : timeField (octets "timestamp") arrival j = .error e) (he : e.IsProtocol) :
    ∃ e', priceOf type arrival j = .error e' ∧ e'.IsProtocol := by
  rw [priceOf, htime]
  cases hmarket : market type j with
  | error e' => exact ⟨e', rfl, isProtocol_of_market hmarket⟩
  | ok market =>
    cases hprice : numberField (octets "price") j with
    | error e' => exact ⟨e', rfl, isProtocol_of_numberField hprice⟩
    | ok price => exact ⟨e, rfl, he⟩

theorem tradeOf_of_fault (htime : timeField (octets "timestamp") arrival j = .error e) (he : e.IsProtocol) :
    ∃ e', tradeOf type arrival j = .error e' ∧ e'.IsProtocol := by
  rw [tradeOf, htime]
  cases hmarket : market type j with
  | error e' => exact ⟨e', rfl, isProtocol_of_market hmarket⟩
  | ok market =>
    cases hprice : numberField (octets "price") j with
    | error e' => exact ⟨e', rfl, isProtocol_of_numberField hprice⟩
    | ok price =>
      cases hamount : numberField (octets "amount") j with
      | error e' => exact ⟨e', rfl, isProtocol_of_numberField hamount⟩
      | ok amount => exact ⟨e, rfl, he⟩

/-- The frames that carry a time of the venue. -/
def IsTimed (j : Json) : Prop := typeOf j = octets "price_update" ∨ typeOf j = octets "trade"

theorem ofJson_price (hobject : j.isObject = true) (htype : typeOf j = octets "price_update") :
    ofJson arrival j = (priceOf (octets "price_update") arrival j).map price := by
  simp [ofJson, hobject, htype]

theorem ofJson_trade (hobject : j.isObject = true) (htype : typeOf j = octets "trade") :
    ofJson arrival j = (tradeOf (octets "trade") arrival j).map trade := by
  have hprice : octets "trade" ≠ octets "price_update" := by decide +kernel
  have hbook : octets "trade" ≠ octets "orderbook_update" := by decide +kernel
  simp [ofJson, hobject, htype, hprice, hbook]

theorem ofJson_of_time (htimed : IsTimed j) (hobject : j.isObject = true)
    (htime : timeField (octets "timestamp") arrival j = .ok t) :
    ofJson arrival j = (ofJson arrival (j.withMember (octets "timestamp") .null)).map (withTime t) := by
  have hobject' : (j.withMember (octets "timestamp") .null).isObject = true := by rw [Json.isObject_withMember, hobject]
  have htype : typeOf (j.withMember (octets "timestamp") .null) = typeOf j := typeOf_withMember (by decide +kernel)
  rcases htimed with hprice | htrade
  · rw [ofJson_price hobject hprice, ofJson_price hobject' (htype.trans hprice), priceOf_of_time hobject htime]
    cases priceOf (octets "price_update") arrival (j.withMember (octets "timestamp") .null) <;> rfl
  · rw [ofJson_trade hobject htrade, ofJson_trade hobject' (htype.trans htrade), tradeOf_of_time hobject htime]
    cases tradeOf (octets "trade") arrival (j.withMember (octets "timestamp") .null) <;> rfl

theorem ofJson_of_fault (htimed : IsTimed j) (hobject : j.isObject = true)
    (htime : timeField (octets "timestamp") arrival j = .error e) (he : e.IsProtocol) :
    ∃ e', ofJson arrival j = .error e' ∧ e'.IsProtocol := by
  rcases htimed with hprice | htrade
  · obtain ⟨e', hfault, he'⟩ := @priceOf_of_fault j (octets "price_update") arrival e htime he
    rw [ofJson_price hobject hprice, hfault]
    exact ⟨e', rfl, he'⟩
  · obtain ⟨e', hfault, he'⟩ := @tradeOf_of_fault j (octets "trade") arrival e htime he
    rw [ofJson_trade hobject htrade, hfault]
    exact ⟨e', rfl, he'⟩

end Message

/-! ### Within 64 bits -/

namespace Within64

open Message

/-- The instant of a count of milliseconds from a field. -/
def millisField (key : Octets) (ms : Int) : Option (Except Error Instant) :=
  (units 1000000 ms).map fun t => t.elim (throw (.outOfRange key)) pure

/-- The instant that a document stands for. A count is converted, rounded or read behind its guard only. -/
def timestamp (key : Octets) : Json → Option (Except Error Instant)
  | .unsigned n =>
    if n.toNat ≤ int64Max then do millisField key (← keep n.toNat) else some (throw (.outOfRange key))
  | .signed i => do millisField key (← keep i.toInt)
  | .real x =>
    if x.abs.less realTimeLimit then
      match x.round? with
      | some ms => do millisField key (← keep ms)
      | none => some (throw (.outOfRange key))
    else some (throw (.outOfRange key))
  | .text s =>
    match numeralInt64? s with
    | some ms => do millisField key (← keep ms)
    | none => (iso8601 s).map fun t => t.elim (throw (.notTimestamp key)) pure
  | _ => some (throw (.notTimestamp key))

theorem millisField_eq (key : Octets) (ms : Int) : millisField key ms = some (Message.millisField key ms) := by
  rw [millisField, units_eq (by decide)]
  rfl

theorem keep_of_inInt64 {i : Int} (h : inInt64 i = true) : keep i = some i := if_pos h

/-- What is left under the limit of real times is rounded into 64 bits. -/
theorem keep_round {x : Binary64} {n : Int} (hless : x.abs.less realTimeLimit = true) (hround : x.round? = some n) :
    keep n = some n := by
  obtain ⟨u, hx, hu⟩ := less_realTimeLimit_iff.mp hless
  have hnear := (Binary64.round?_eq_some_iff hx).mp hround
  have hmul : n.natAbs * Binary64.unitsOfOne < 9000000000000000001 * Binary64.unitsOfOne := by
    have hle := hnear.natAbs_mul_le Binary64.unitsOfOne_pos
    omega
  have hlt := Nat.lt_of_mul_lt_mul_right hmul
  exact keep_eq (by omega) (by omega)

/-- Nothing leaves 64 bits when a document is read as a time, whatever the document. -/
theorem timestamp_eq (key : Octets) (v : Json) : timestamp key v = some (Message.timestamp key v) := by
  cases v with
  | unsigned n =>
    rw [timestamp, Message.timestamp]
    split
    next hn =>
      simp only [int64Max] at hn
      rw [keep_eq (by omega) hn]
      exact millisField_eq key n.toNat
    next => rfl
  | signed i =>
    rw [timestamp, keep_eq i.le_toInt i.toInt_le]
    exact millisField_eq key i.toInt
  | real x =>
    rw [timestamp, Message.timestamp]
    split
    next hless =>
      cases hround : x.round? with
      | none => rfl
      | some n =>
        simp only [keep_round hless hround]
        exact millisField_eq key n
    next => rfl
  | text s =>
    rw [timestamp, Message.timestamp]
    cases hs : numeralInt64? s with
    | none =>
      simp only [iso8601_eq]
      rfl
    | some ms =>
      simp only [keep_of_inInt64 (numeralInt64?_eq_some_iff.mp hs).1]
      exact millisField_eq key ms
  | _ => rfl

end Within64

namespace Message

/-- A frame says the same whichever way the count of its time is written: the instant of that count, or a fault
where the clock has none. Every finite floating-point number has a count, and nothing leaves 64 bits on the way. -/
theorem counted_times_agree :
    (∀ (arrival : Instant) (j v : Json) (n : Int), IsTimed j → j.member? (octets "timestamp") = some v →
      TellsMillis n v →
        (-9223372036854 ≤ n ∧ n ≤ 9223372036854 → ∃ t : Instant, t.ns = n * 1000000 ∧
          ofJson arrival j = (ofJson arrival (j.withMember (octets "timestamp") .null)).map (withTime t)) ∧
        (¬(-9223372036854 ≤ n ∧ n ≤ 9223372036854) → ∃ e : Error, e.IsProtocol ∧ ofJson arrival j = .error e)) ∧
      (∀ x : Binary64, x.isFinite = true → ∃ n, TellsMillis n (.real x)) ∧
      ∀ (key : Octets) (v : Json), Within64.timestamp key v = some (timestamp key v) := by
  refine ⟨?_, ?_, Within64.timestamp_eq⟩
  · intro arrival j v n htimed hmember htells
    have hobject : j.isObject = true := by
      cases j with
      | object members => rfl
      | _ => cases hmember
    have htime : timeField (octets "timestamp") arrival j = timestamp (octets "timestamp") v :=
      timeField_of_tells hmember htells
    have hbecomes : Becomes n (timestamp (octets "timestamp") v) := htells.becomes
    constructor
    · intro hnear
      obtain ⟨t, hns, ht⟩ := Instant.ofMillis?_of_le hnear.1 hnear.2
      exact ⟨t, hns, ofJson_of_time htimed hobject (htime.trans (hbecomes.instant t ht))⟩
    · intro hfar
      obtain ⟨e, hfault, he⟩ := hbecomes.fault (Instant.ofMillis?_of_lt (by omega))
      obtain ⟨e', hfault', he'⟩ := ofJson_of_fault htimed hobject (htime.trans hfault) he
      exact ⟨e', he', hfault'⟩
  · intro x hx
    cases x with
    | finite negative rank =>
      obtain ⟨n, -, hnear⟩ := Binary64.exists_round? (Binary64.toUnits_finite negative rank)
      exact ⟨n, .nearest (Binary64.toUnits_finite negative rank) hnear⟩
    | _ => cases hx

/-- A trade whose time is a second and a half before 1970, written as a text. -/
def earlyTrade : Json :=
  (Json.object [(octets "marketId", .text (octets "A")), (octets "type", .text (octets "trade"))]).withMember
    (octets "timestamp") (.text (decimalInt (-1500)))

theorem earlyTrade_time : IsTimed earlyTrade ∧
    earlyTrade.member? (octets "timestamp") = some (.text (decimalInt (-1500))) ∧ ∃ t : Instant, t.ns = -1500000000 ∧
      ofJson default earlyTrade =
        (ofJson default (earlyTrade.withMember (octets "timestamp") .null)).map (withTime t) := by
  have htimed : IsTimed earlyTrade := by
    right
    rw [earlyTrade, typeOf_withMember (by decide +kernel)]
    decide +kernel
  have hmember : earlyTrade.member? (octets "timestamp") = some (.text (decimalInt (-1500))) :=
    Json.member?_withMember_self rfl
  refine ⟨htimed, hmember, ?_⟩
  exact (counted_times_agree.1 default earlyTrade _ (-1500) htimed hmember (.numeral _)).1 (by decide)

end Message

end QuoteFeed
