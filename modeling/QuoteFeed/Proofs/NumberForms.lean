import QuoteFeed.Proofs.NumberLiterals
import QuoteFeed.Proofs.Routing

/-!
Numbers in two forms. In the fields of prices and trades a number may stand as such or in quotes, and a frame is
treated alike in both forms: either both carry a message, with the same number in the field, or both are refused and
leave the client as it was.
-/

namespace QuoteFeed

open Binary64 (SameNumber RoundsTo)

/-- The numbers of prices and trades. -/
inductive NumberField where
  | price
  | volume
  | change
  | tradePrice
  | amount

namespace NumberField

/-- The type of the frames that have the field. -/
def type : NumberField → Octets
  | price | volume | change => octets "price_update"
  | tradePrice | amount => octets "trade"

def key : NumberField → Octets
  | price | tradePrice => octets "price"
  | volume => octets "volume24h"
  | change => octets "changePercent"
  | amount => octets "amount"

def get? : NumberField → Message → Option Binary64
  | price, .price q => some q.price
  | volume, .price q => some q.volume
  | change, .price q => some q.change
  | tradePrice, .trade t => some t.price
  | amount, .trade t => some t.amount
  | _, _ => none

def set (x : Binary64) : NumberField → Message → Message
  | price, .price q => .price { q with price := x }
  | volume, .price q => .price { q with volume := x }
  | change, .price q => .price { q with change := x }
  | tradePrice, .trade t => .trade { t with price := x }
  | amount, .trade t => .trade { t with amount := x }
  | _, m => m

end NumberField

namespace Message

variable {j k : Json} {key : Octets} {v : Json} {x y : Binary64} {arrival : Instant} {field : NumberField}

theorem numberField_of_member (hv : j.member? key = some v) (hnull : v ≠ .null) :
    numberField key j = (finiteNumber? v).elim (.error (.notNumeric key)) .ok := by
  rw [numberField, present?, hv]
  cases v with
  | null => exact absurd rfl hnull
  | _ => rfl

/-- Two outcomes are the same fault, or messages that differ in the number of one field. -/
def Varies (field : NumberField) (x y : Binary64) (r r' : Except Error Message) : Prop :=
  (∃ e, r = .error e ∧ r' = .error e) ∨
    ∃ m, r = .ok m ∧ field.get? m = some x ∧ field.get? (field.set y m) = some y ∧ r' = .ok (field.set y m)

section

variable {α γ : Type} {make : γ → Message}

theorem Varies.bind {z : Except Error α} {f f' : α → Except Error γ}
    (h : ∀ a, Varies field x y ((f a).map make) ((f' a).map make)) :
    Varies field x y ((z >>= f).map make) ((z >>= f').map make) := by
  cases z with
  | error e => exact .inl ⟨e, rfl, rfl⟩
  | ok a => exact h a

theorem Varies.at_field {f f' : Binary64 → Except Error γ}
    (h : Varies field x y ((f x).map make) ((f' y).map make)) :
    Varies field x y (((Except.ok x : Except Error Binary64) >>= f).map make)
      (((Except.ok y : Except Error Binary64) >>= f').map make) := h

theorem exists_error_of_bind {z : Except Error α} {f : α → Except Error γ} (h : ∀ a, ∃ e, f a = .error e) :
    ∃ e, z >>= f = .error e := by
  cases z with
  | error e => exact ⟨e, rfl⟩
  | ok a => exact h a

end

/-- The field decides on nothing but its own number. -/
theorem ofJson_varies (arrival : Instant) (h : Json.Beside field.key j k) (hj : j.isObject = true)
    (hk : k.isObject = true) (htype : typeOf j = field.type)
    (hx : numberField field.key j = .ok x) (hy : numberField field.key k = .ok y) :
    Varies field x y (ofJson arrival j) (ofJson arrival k) := by
  have htype' : typeOf k = field.type := by
    rw [← htype]
    exact h.typeOf (by cases field <;> decide +kernel)
  have hmarket : ∀ type, market type k = market type j := fun type =>
    h.market (by cases field <;> decide +kernel)
  have htime : timeField (octets "timestamp") arrival k = timeField (octets "timestamp") arrival j :=
    h.timeField (by cases field <;> decide +kernel)
  cases field with
  | price =>
    dsimp only [NumberField.key] at h hx hy
    rw [ofJson_price hj htype, ofJson_price hk htype', priceOf, priceOf, hmarket, htime, hx, hy,
      h.numberField (show _ ≠ octets "volume24h" by decide +kernel),
      h.numberField (show _ ≠ octets "changePercent" by decide +kernel)]
    exact .bind fun market => .at_field (.bind fun time => .bind fun volume => .bind fun change =>
      .inr ⟨_, rfl, rfl, rfl, rfl⟩)
  | volume =>
    dsimp only [NumberField.key] at h hx hy
    rw [ofJson_price hj htype, ofJson_price hk htype', priceOf, priceOf, hmarket, htime, hx, hy,
      h.numberField (show _ ≠ octets "price" by decide +kernel),
      h.numberField (show _ ≠ octets "changePercent" by decide +kernel)]
    exact .bind fun market => .bind fun price => .bind fun time => .at_field (.bind fun change =>
      .inr ⟨_, rfl, rfl, rfl, rfl⟩)
  | change =>
    dsimp only [NumberField.key] at h hx hy
    rw [ofJson_price hj htype, ofJson_price hk htype', priceOf, priceOf, hmarket, htime, hx, hy,
      h.numberField (show _ ≠ octets "price" by decide +kernel),
      h.numberField (show _ ≠ octets "volume24h" by decide +kernel)]
    exact .bind fun market => .bind fun price => .bind fun time => .bind fun volume => .at_field
      (.inr ⟨_, rfl, rfl, rfl, rfl⟩)
  | tradePrice =>
    dsimp only [NumberField.key] at h hx hy
    rw [ofJson_trade hj htype, ofJson_trade hk htype', tradeOf, tradeOf, hmarket, htime, hx, hy,
      h.numberField (show _ ≠ octets "amount" by decide +kernel)]
    exact .bind fun market => .at_field (.bind fun amount => .bind fun time => .inr ⟨_, rfl, rfl, rfl, rfl⟩)
  | amount =>
    dsimp only [NumberField.key] at h hx hy
    rw [ofJson_trade hj htype, ofJson_trade hk htype', tradeOf, tradeOf, hmarket, htime, hx, hy,
      h.numberField (show _ ≠ octets "price" by decide +kernel)]
    exact .bind fun market => .bind fun price => .at_field (.bind fun time => .inr ⟨_, rfl, rfl, rfl, rfl⟩)

/-- A frame whose field is no number is refused, though perhaps for what comes before it. -/
theorem ofJson_refused {e : Error} (arrival : Instant) (hobject : j.isObject = true) (htype : typeOf j = field.type)
    (he : numberField field.key j = .error e) : ∃ e', ofJson arrival j = .error e' := by
  have hmap : ∀ {α : Type} {make : α → Message} {r : Except Error α}, (∃ e', r = .error e') →
      ∃ e', r.map make = .error e' := by
    rintro α make _ ⟨e', rfl⟩
    exact ⟨e', rfl⟩
  cases field with
  | price =>
    dsimp only [NumberField.key] at he
    rw [ofJson_price hobject htype, priceOf, he]
    exact hmap (exists_error_of_bind fun market => ⟨e, rfl⟩)
  | volume =>
    dsimp only [NumberField.key] at he
    rw [ofJson_price hobject htype, priceOf, he]
    exact hmap (exists_error_of_bind fun market => exists_error_of_bind fun price => exists_error_of_bind fun time =>
      ⟨e, rfl⟩)
  | change =>
    dsimp only [NumberField.key] at he
    rw [ofJson_price hobject htype, priceOf, he]
    exact hmap (exists_error_of_bind fun market => exists_error_of_bind fun price => exists_error_of_bind fun time =>
      exists_error_of_bind fun volume => ⟨e, rfl⟩)
  | tradePrice =>
    dsimp only [NumberField.key] at he
    rw [ofJson_trade hobject htype, tradeOf, he]
    exact hmap (exists_error_of_bind fun market => ⟨e, rfl⟩)
  | amount =>
    dsimp only [NumberField.key] at he
    rw [ofJson_trade hobject htype, tradeOf, he]
    exact hmap (exists_error_of_bind fun market => exists_error_of_bind fun price => ⟨e, rfl⟩)

end Message

/-! ### Frames -/

/-- The frame is of a type, as far as its members can be read at all. -/
def Json.OpenFrame.IsOf {key : Octets} (f : Json.OpenFrame key) (type : Octets) : Prop :=
  ∀ b a, f.before = .ok b → f.after = .ok a → Message.typeOf (Json.ofMembers (b ++ a)) = type

/-- Two frames turn out to be alike: they carry one message but for the number of a field, which is the same number in
the one form and in the other, or both are refused. -/
inductive TreatedAlike (field : NumberField) (p : DecimalForm) : Fate → Fate → Prop where
  | decoded {m m' : Message} {x y : Binary64} : field.get? m = some x → field.get? m' = some y → m' = field.set y m →
      SameNumber x y → RoundsTo p.sign.negative p.magnitude y → TreatedAlike field p (.ok m) (.ok m')
  | refused {text text' : Octets} : TreatedAlike field p (.error text) (.error text')

namespace Fate

variable {payload : Octets} {j : Json}

theorem ofFrame_of_unread {e : Json.Error} (arrival : Instant) (h : Json.read payload = .error e) :
    ∃ text, ofFrame arrival payload = .error text := by
  rw [ofFrame, Message.ofFrame, h]
  exact ⟨_, rfl⟩

theorem ofFrame_of_read (arrival : Instant) (h : Json.read payload = .ok j) :
    ofFrame arrival payload = (Message.ofJson arrival j).mapError fun e => e.message.untilNul := by
  rw [ofFrame, Message.ofFrame, h]
  rfl

end Fate

namespace NumberField

variable {field : NumberField} {p : DecimalForm} {payload payload' : Octets} {b a : List (Octets × Json)} {j k : Json}

theorem typeOf_ofMembers (field : NumberField) :
    Message.typeOf (Json.ofMembers (b ++ (field.key, j) :: a)) = Message.typeOf (Json.ofMembers (b ++ a)) := by
  rw [Message.typeOf, Json.member?_beside (by cases field <;> decide +kernel)]
  rfl

theorem beside_ofMembers (key : Octets) (b a : List (Octets × Json)) (j k : Json) :
    Json.Beside key (Json.ofMembers (b ++ (key, j) :: a)) (Json.ofMembers (b ++ (key, k) :: a)) :=
  fun _ hother => (Json.member?_beside hother).trans (Json.member?_beside hother).symm

/-- The number in the field, if it is the last member of its key. -/
theorem numberField_amid (hlast : ∀ m ∈ a, m.1 ≠ field.key) (hnull : j ≠ .null) :
    Message.numberField field.key (Json.ofMembers (b ++ (field.key, j) :: a)) =
      (Message.finiteNumber? j).elim (.error (.notNumeric field.key)) .ok :=
  Message.numberField_of_member (Json.member?_amid hlast) hnull

theorem numberField_of_number (hlast : ∀ m ∈ a, m.1 ≠ field.key) {x : Binary64}
    (hx : Message.finiteNumber? j = some x) :
    Message.numberField field.key (Json.ofMembers (b ++ (field.key, j) :: a)) = .ok x := by
  have hnull : j ≠ .null := by
    rintro rfl
    cases hx
  rw [numberField_amid hlast hnull, hx]
  rfl

theorem alike_of_unread {e e' : Json.Error} (arrival : Instant) (h : Json.read payload = .error e)
    (h' : Json.read payload' = .error e') :
    TreatedAlike field p (Fate.ofFrame arrival payload) (Fate.ofFrame arrival payload') := by
  obtain ⟨text, hfate⟩ := Fate.ofFrame_of_unread arrival h
  obtain ⟨text', hfate'⟩ := Fate.ofFrame_of_unread arrival h'
  rw [hfate, hfate']
  exact .refused

/-- Two frames are alike whose members are the same but for the field, where a literal and its text stand. -/
theorem alike_of_read (arrival : Instant) (hlast : ∀ m ∈ a, m.1 ≠ field.key)
    (htype : Message.typeOf (Json.ofMembers (b ++ a)) = field.type)
    (hnumber : Json.read payload = p.numeral.toJson.map fun j => Json.ofMembers (b ++ (field.key, j) :: a))
    (hquoted : Json.read payload' = .ok (Json.ofMembers (b ++ (field.key, .text p.text) :: a))) :
    TreatedAlike field p (Fate.ofFrame arrival payload) (Fate.ofFrame arrival payload') := by
  have hread' := Fate.ofFrame_of_read arrival hquoted
  cases p.read_alike with
  | refused hj htext =>
    rw [hj] at hnumber
    obtain ⟨text, hfate⟩ := Fate.ofFrame_of_unread arrival hnumber
    have hfield := numberField_amid (b := b) hlast (show Json.text p.text ≠ .null by nofun)
    rw [show Message.finiteNumber? (.text p.text) = none from htext] at hfield
    obtain ⟨e, he⟩ := Message.ofJson_refused arrival rfl ((typeOf_ofMembers field).trans htype) hfield
    rw [hfate, hread', he]
    exact .refused
  | @number j x y hj hx hy hsame =>
    rw [hj] at hnumber
    have hfield := numberField_of_number (b := b) hlast hx
    have hfield' := numberField_of_number (b := b) hlast (show Message.finiteNumber? (.text p.text) = some y from hy)
    have hrounds := (Binary64.ofText_form_iff.mp hy).1
    have hbeside := beside_ofMembers field.key b a j (.text p.text)
    rw [Fate.ofFrame_of_read arrival hnumber, hread']
    rcases Message.ofJson_varies arrival hbeside rfl rfl ((typeOf_ofMembers field).trans htype) hfield hfield' with
      ⟨e, he, he'⟩ | ⟨m, hm, hget, hget', hm'⟩
    · rw [he, he']
      exact .refused
    · rw [hm, hm']
      exact .decoded hget hget' rfl hsame hrounds

theorem treated_alike (frame : Json.OpenFrame field.key) (hframe : frame.IsOf field.type) (hp : p.IsLiteral)
    (arrival : Instant) :
    TreatedAlike field p (Fate.ofFrame arrival (frame.fill p.text)) (Fate.ofFrame arrival (frame.fill p.quoted)) := by
  have hnumber := frame.read_fill (Json.comesTo_number hp frame.closes.endsNumber)
  have hquoted := frame.read_fill (Json.comesTo_quoted p frame.back)
  cases hbefore : frame.before with
  | error e =>
    rw [hbefore] at hnumber hquoted
    exact alike_of_unread arrival hnumber hquoted
  | ok b =>
    cases hafter : frame.after with
    | error e =>
      rw [hbefore, hafter] at hnumber hquoted
      -- the fault of the number comes first if it has one
      obtain ⟨e', hnumber⟩ : ∃ e', Json.read (frame.fill p.text) = .error e' := by
        rw [hnumber]
        cases p.numeral.toJson with
        | error e' => exact ⟨e', rfl⟩
        | ok j => exact ⟨e, rfl⟩
      exact alike_of_unread arrival hnumber hquoted
    | ok a =>
      rw [hbefore, hafter] at hnumber hquoted
      refine alike_of_read arrival (frame.last a hafter) (hframe b a hbefore hafter) ?_ hquoted
      rw [hnumber]
      cases p.numeral.toJson <;> rfl

/-- What carries a message has been read, the number in the field as well. -/
theorem read_of_carried (frame : Json.OpenFrame field.key) (hp : p.IsLiteral) {arrival : Instant} {m : Message}
    (hm : Fate.ofFrame arrival (frame.fill p.text) = .ok m) :
    ∃ b a j, frame.before = .ok b ∧ frame.after = .ok a ∧ p.numeral.toJson = .ok j ∧
      Message.ofJson arrival (Json.ofMembers (b ++ (field.key, j) :: a)) = .ok m := by
  have hread := frame.read_fill (Json.comesTo_number hp frame.closes.endsNumber)
  have hdecoded : ∀ e, Json.read (frame.fill p.text) ≠ .error e := by
    intro e he
    obtain ⟨text, hfate⟩ := Fate.ofFrame_of_unread arrival he
    rw [hm] at hfate
    cases hfate
  cases hbefore : frame.before with
  | error e =>
    rw [hbefore] at hread
    exact absurd hread (hdecoded e)
  | ok b =>
    rw [hbefore] at hread
    cases hj : p.numeral.toJson with
    | error e =>
      rw [hj] at hread
      exact absurd hread (hdecoded e)
    | ok j =>
      rw [hj] at hread
      cases hafter : frame.after with
      | error e =>
        rw [hafter] at hread
        exact absurd hread (hdecoded e)
      | ok a =>
        rw [hafter] at hread
        rw [Fate.ofFrame_of_read arrival hread] at hm
        exact ⟨b, a, j, rfl, rfl, rfl, Except.eq_ok_of_mapError hm⟩

/-- A literal in range is a number. -/
theorem exists_number (hrange : p.magnitude < 2 ^ 1024 - 2 ^ 970) :
    ∃ j x, p.numeral.toJson = .ok j ∧ Message.finiteNumber? j = some x := by
  cases p.read_alike with
  | @number j x _ hj hx _ _ => exact ⟨j, x, hj, hx⟩
  | refused _ htext =>
    rw [Binary64.ofText_form_iff.mpr ⟨p.roundsTo_toBinary64, hrange⟩] at htext
    cases htext

theorem finiteNumber_of_toJson {j : Json} (hj : p.numeral.toJson = .ok j) : ∃ x, Message.finiteNumber? j = some x := by
  cases p.read_alike with
  | @number _ x _ hj' hx _ _ =>
    rw [hj] at hj'
    exact ⟨x, Except.ok.inj hj' ▸ hx⟩
  | refused hj' _ =>
    rw [hj] at hj'
    cases hj'

/-- Where a frame carries a message with some literal, it carries one with every literal in range. -/
theorem carried_of_inRange (frame : Json.OpenFrame field.key) (hframe : frame.IsOf field.type) {q : DecimalForm}
    (hq : q.IsLiteral) (hp : p.IsLiteral) {arrival : Instant} {m : Message}
    (hm : Fate.ofFrame arrival (frame.fill q.text) = .ok m) (hrange : p.magnitude < 2 ^ 1024 - 2 ^ 970) :
    ∃ m', Fate.ofFrame arrival (frame.fill p.text) = .ok m' := by
  obtain ⟨b, a, k, hbefore, hafter, hk, hm⟩ := read_of_carried frame hq hm
  have hlast := frame.last a hafter
  obtain ⟨y, hy⟩ := finiteNumber_of_toJson hk
  obtain ⟨j, x, hj, hx⟩ := exists_number hrange
  have hread := frame.read_fill (Json.comesTo_number hp frame.closes.endsNumber)
  rw [hbefore, hj, hafter] at hread
  rw [Fate.ofFrame_of_read arrival hread]
  rcases Message.ofJson_varies arrival (beside_ofMembers field.key b a k j) rfl rfl
    ((typeOf_ofMembers field).trans (hframe b a hbefore hafter)) (numberField_of_number hlast hy)
    (numberField_of_number hlast hx) with ⟨e, he, -⟩ | ⟨m', -, -, -, hm'⟩
  · rw [hm] at he
    cases he
  · rw [hm']
    exact ⟨_, rfl⟩

/-- A frame that carries a message with some literal does so with the literals in range, and with no others. -/
theorem carried_iff (frame : Json.OpenFrame field.key) (hframe : frame.IsOf field.type) {q : DecimalForm}
    (hq : q.IsLiteral) (hp : p.IsLiteral) {arrival : Instant} {m : Message}
    (hm : Fate.ofFrame arrival (frame.fill q.text) = .ok m) :
    (∃ m', Fate.ofFrame arrival (frame.fill p.text) = .ok m') ↔ |p.value| < 2 ^ 1024 - 2 ^ 970 := by
  rw [p.abs_value]
  refine ⟨?_, carried_of_inRange frame hframe hq hp hm⟩
  rintro ⟨m', hm'⟩
  obtain ⟨_, _, j, -, -, hj, -⟩ := read_of_carried frame hp hm'
  cases p.read_alike with
  | number _ _ hy _ => exact (Binary64.ofText_form_iff.mp hy).2
  | refused he _ =>
    rw [hj] at he
    cases he

end NumberField

/-! ### Clients -/

/-- A frame has been refused, and nothing else has happened: it has been counted, and what is wrong with it has been
told. -/
structure Refused (text payload : Octets) {τ : Type} (w v : World τ) : Prop where
  client : v.client = w.client
  clock : v.clock = w.clock
  deeds : ∃ added, v.history = added ++ w.history ∧ added.map Moment.deed =
    [.publishes (.parseError text payload), .measures (octets "parse_error") (.ofInt 1),
      .measures (octets "frame_bytes") (.ofInt payload.length), .hears (.frame payload)]

section

variable {β τ : Type} {net : Network τ} {c : Conduct net} {may : Use → Prop}
  {emit : Event → Step (Stage β (World τ)) Unit} {s : Stage β (World τ)}

/-- While consumers only observe, a frame that is refused leaves its client as it was. -/
theorem refused_of_fate (h : Seen c may s) (hemit : Consumer c (fun _ => False) emit) {link : Nat}
    (hl : s.rest.client.link = some link) {payload text : Octets}
    (hfate : Fate.ofFrame (s.rest.epoch.after s.rest.clock.now) payload = .error text) :
    (Client.receiveFrom net emit link (.frame payload)).Ends s (fun _ t => Refused text payload s.rest t.rest)
      fun _ _ => False := by
  refine Client.receiveFrom_ends (sound_of_seen h).toTied hl ?_
  refine ((observed_of_consumer hemit).receiveFrame payload).mono (fun _ t ht => ?_) fun _ _ he => he
  dsimp only at ht
  have hfate' : Fate.ofFrame ((s.rest.noted (.hears (.frame payload))).epoch.after
      (s.rest.noted (.hears (.frame payload))).clock.now) payload = .error text := hfate
  rw [hfate'] at ht
  obtain ⟨hclient, hclock, added, hadded, hdeeds⟩ := ht
  refine ⟨hclient, hclock, added ++ [⟨s.rest.client, s.rest.clock, .hears (.frame payload)⟩], ?_, ?_⟩
  · rw [hadded, List.append_assoc]
    rfl
  · rw [List.map_append, hdeeds]
    rfl

/-- A number literal and the same literal in quotes are interchangeable in the number fields of prices and trades. The
two frames carry one message, with the same number in the field, or both are refused, which the number itself is a
reason for only out of range; and wherever a client is seen whose link delivers a refused one, while consumers only
observe, it tells so and is left as it was. -/
theorem numbers_interchangeable (field : NumberField) (frame : Json.OpenFrame field.key)
    (hframe : frame.IsOf field.type) {p : DecimalForm} (hp : p.IsLiteral) :
    (∀ arrival,
      TreatedAlike field p (Fate.ofFrame arrival (frame.fill p.text)) (Fate.ofFrame arrival (frame.fill p.quoted))) ∧
    (∀ (arrival : Instant) (q : DecimalForm) (m : Message), q.IsLiteral →
      Fate.ofFrame arrival (frame.fill q.text) = .ok m →
        ((∃ m', Fate.ofFrame arrival (frame.fill p.text) = .ok m') ↔ |p.value| < 2 ^ 1024 - 2 ^ 970)) ∧
    (Seen c may s → Consumer c (fun _ => False) emit → ∀ {link : Nat}, s.rest.client.link = some link →
      ∀ payload ∈ [frame.fill p.text, frame.fill p.quoted], ∀ text,
        Fate.ofFrame (s.rest.epoch.after s.rest.clock.now) payload = .error text →
        (∀ (r : Except Failure Unit) (t : Stage β (World τ)),
          (Client.receiveFrom net emit link (.frame payload)).outcome s = some (r, t) →
            r = .ok () ∧ Refused text payload s.rest t.rest) ∧
        ((∀ event, (emit event).Settles) → (Client.receiveFrom net emit link (.frame payload)).Settles)) := by
  refine ⟨NumberField.treated_alike frame hframe hp, fun _ _ _ hq hm => NumberField.carried_iff frame hframe hq hp hm,
    fun h hemit link hl payload _ text hfate => ?_⟩
  have hends := refused_of_fate h hemit hl hfate
  refine ⟨fun r t ho => ?_, fun hsettles => Client.settles_receiveFrom hsettles link _⟩
  cases r with
  | error e => exact (hends.failure ho).elim
  | ok a => exact ⟨rfl, hends.value ho⟩

end

namespace ScriptedLinks

open Json

theorem leadsMember_named {name key : Octets} (h : readQuoted name = .ok (key, [Ascii.colon])) :
    LeadsMember (Ascii.quoteMark :: name) key [] :=
  ⟨name, [Ascii.colon], rfl, h, rfl⟩

/-- A price with a place for its number, and nothing behind it. -/
def openPrice : OpenFrame NumberField.price.key where
  opening := octets "\x7b"
  front := octets "\"type\":" ++ (octets "\"price_update\"" ++ (octets "," ++
    (octets "\"marketId\":" ++ (octets "\"A\"" ++ (octets "," ++ (octets "\"price\":" ++ octets " "))))))
  back := octets "\x7d"
  before := .ok [(octets "type", .text (octets "price_update")), (octets "marketId", .text (octets "A"))]
  after := .ok []
  opens := by decide +kernel
  leads := by
    have htype : ∀ more, ComesTo (octets "\"price_update\"") (octets "," ++ more)
        (.ok (.text (octets "price_update"))) :=
      comesTo_of_reads (show readValue 1 _ = _ from rfl) (by decide +kernel)
    have hmarket : ∀ more, ComesTo (octets "\"A\"") (octets "," ++ more) (.ok (.text (octets "A"))) :=
      comesTo_of_reads (show readValue 1 _ = _ from rfl) (by decide +kernel)
    exact .later (leadsMember_named rfl) htype rfl (.later (leadsMember_named rfl) hmarket rfl
      (.here (leadsMember_named rfl) rfl))
  closes := .last rfl rfl
  last := by
    rintro _ ⟨⟩ m hm
    cases hm

/-- An integer that 64 bits do not hold. -/
def wideForm : DecimalForm :=
  .ofWhole .none (octets "18446744073709551617") none (by decide +kernel) (by decide +kernel)

/-- A number out of range. -/
def hugeForm : DecimalForm :=
  .ofWhole .none (octets "2") (some ⟨false, .none, octets "308", by decide +kernel, by decide +kernel⟩)
    (by decide +kernel) (by decide +kernel)

theorem openPrice_interchangeable :
    TreatedAlike .price wideForm (Fate.ofFrame default (openPrice.fill wideForm.text))
      (Fate.ofFrame default (openPrice.fill wideForm.quoted)) ∧
    (Fate.ofFrame default (openPrice.fill wideForm.text)).isOk = true ∧
    TreatedAlike .price hugeForm (Fate.ofFrame default (openPrice.fill hugeForm.text))
      (Fate.ofFrame default (openPrice.fill hugeForm.quoted)) ∧
    ∃ text t, (Client.receiveFrom network quietly 0 (.frame (openPrice.fill hugeForm.text))).outcome quotedRun =
      some (.ok (), t) ∧ Refused text (openPrice.fill hugeForm.text) quotedRun.rest t.rest := by
  have htype : openPrice.IsOf NumberField.price.type := by
    rintro _ _ ⟨⟩ ⟨⟩
    decide +kernel
  have hwide : wideForm.IsLiteral := ⟨nofun, by decide +kernel, by decide +kernel, nofun⟩
  have hhuge : hugeForm.IsLiteral := ⟨nofun, by decide +kernel, by decide +kernel, nofun⟩
  have hs : Reached (conduct false) (fun _ => True) quotedRun :=
    reached_played (conduct_blank (by decide) rfl (by decide)) consumer_quietly fun _ _ => trivial
  have hl : quotedRun.rest.client.link = some 0 := by decide +kernel
  have hfate : Fate.ofFrame (quotedRun.rest.epoch.after quotedRun.rest.clock.now) (openPrice.fill hugeForm.text) =
      .error (octets "<json.out_of_range>") := by
    decide +kernel
  obtain ⟨halike, -, hrefused⟩ := numbers_interchangeable .price openPrice htype hhuge
  obtain ⟨hcontained, hsettles⟩ := hrefused (.between hs) consumer_quietly hl _ List.mem_cons_self _ hfate
  obtain ⟨r, t, ho⟩ := hsettles (Stage.settles_publish fun _ _ => Step.settles_pure ()) quotedRun
  obtain ⟨rfl, ht⟩ := hcontained r t ho
  have hdecoded : (Fate.ofFrame default (openPrice.fill wideForm.text)).isOk = true := by decide +kernel
  obtain ⟨halike', -⟩ := @numbers_interchangeable _ _ network (conduct false) (fun _ => True) quietly quotedRun .price
    openPrice htype _ hwide
  exact ⟨halike' default, hdecoded, halike default, _, t, ho, ht⟩

end ScriptedLinks

end QuoteFeed
