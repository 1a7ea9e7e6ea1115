import QuoteFeed.Calendar
import QuoteFeed.DecimalText
import QuoteFeed.Event
import QuoteFeed.JsonReader
import QuoteFeed.JsonWriter

/-!
Frames from the venue. A frame is an object whose `type` says what it carries; numbers may come as
texts, times as milliseconds or as civil time.
-/

namespace QuoteFeed

inductive Message where
  | price (quote : Quote)
  | orderBook (book : OrderBook)
  | trade (trade : Trade)
  | heartbeat
  | unknown (type raw : Octets)
deriving DecidableEq

namespace Message

/-- Why a frame carries nothing. -/
inductive Error where
  | document (error : Json.Error)
  | notObject
  | noMarket (type : Octets)
  | notNumeric (field : Octets)
  | notTimestamp (field : Octets)
  | outOfRange (field : Octets)
deriving DecidableEq

def Error.message : Error → Octets
  | document e => e.message
  | notObject => octets "frame is not a JSON object"
  | noMarket type => type ++ octets " without a marketId"
  | notNumeric field => octets "field '" ++ field ++ octets "' is not numeric"
  | notTimestamp field => octets "field '" ++ field ++ octets "' is not a timestamp"
  | outOfRange field => octets "field '" ++ field ++ octets "' is out of range"

/-- The finite number that a document stands for, as a number or as a text. -/
def finiteNumber? : Json → Option Binary64
  | .text s => Binary64.ofText? s
  | j => j.number?.filter Binary64.isFinite

/-- A member that is neither missing nor null. -/
def present? (key : Octets) (j : Json) : Option Json :=
  match j.member? key with
  | some .null | none => none
  | some v => some v

/-- The number in a field; zero where there is none. -/
def numberField (key : Octets) (j : Json) : Except Error Binary64 :=
  match present? key j with
  | none => pure (.zero false)
  | some v => (finiteNumber? v).elim (throw (.notNumeric key)) pure

/-- The instant of a count of milliseconds from a field. -/
def millisField (key : Octets) (ms : Int) : Except Error Instant :=
  (Instant.ofMillis? ms).elim (throw (.outOfRange key)) pure

/-- Magnitudes from here on are no time in milliseconds. -/
def realTimeLimit : Binary64 := .ofInt 9000000000000000000

/-- The instant that a document stands for: a count of milliseconds, the numeral of one, or civil time. -/
def timestamp (key : Octets) : Json → Except Error Instant
  | .unsigned n => if n.toNat ≤ int64Max then millisField key n.toNat else throw (.outOfRange key)
  | .signed i => millisField key i.toInt
  | .real x =>
    if x.abs.less realTimeLimit then (x.round?).elim (throw (.outOfRange key)) (millisField key)
    else throw (.outOfRange key)
  | .text s =>
    match numeralInt64? s with
    | some ms => millisField key ms
    | none => (Instant.ofIso8601? s).elim (throw (.notTimestamp key)) pure
  | _ => throw (.notTimestamp key)

/-- The time in a field; the time of arrival where there is none. -/
def timeField (key : Octets) (arrival : Instant) (j : Json) : Except Error Instant :=
  match present? key j with
  | none => pure arrival
  | some v => timestamp key v

/-- The instrument that a frame is about. -/
def market (type : Octets) (j : Json) : Except Error Octets :=
  match (j.member? (octets "marketId")).bind Json.text? with
  | some (b :: s) => pure (b :: s)
  | _ => throw (.noMarket type)

/-- The level that a document stands for: a list that starts with two numbers. -/
def level? : Json → Option Level
  | .list (first :: second :: _) => do
    let price ← finiteNumber? first
    let size ← finiteNumber? second
    pure { price, size }
  | _ => none

/-- One side of a book; what is not a level is left out. -/
def levels (key : Octets) (j : Json) : List Level :=
  (((j.member? key).bind Json.items?).getD []).filterMap level?

def priceOf (type : Octets) (arrival : Instant) (j : Json) : Except Error Quote := do
  let market ← market type j
  let price ← numberField (octets "price") j
  let time ← timeField (octets "timestamp") arrival j
  let volume ← numberField (octets "volume24h") j
  let change ← numberField (octets "changePercent") j
  pure { market, price, time, volume, change }

def orderBookOf (type : Octets) (arrival : Instant) (j : Json) : Except Error OrderBook := do
  let market ← market type j
  pure { market, time := arrival, bids := levels (octets "bids") j, asks := levels (octets "asks") j }

def tradeOf (type : Octets) (arrival : Instant) (j : Json) : Except Error Trade := do
  let market ← market type j
  let price ← numberField (octets "price") j
  let amount ← numberField (octets "amount") j
  let time ← timeField (octets "timestamp") arrival j
  pure { market, time, price, amount }

/-- The type of a frame; a frame without one has the empty type. -/
def typeOf (j : Json) : Octets := ((j.member? (octets "type")).bind Json.text?).getD []

/-- What a document carries, if it arrived at a certain time. -/
def ofJson (arrival : Instant) (j : Json) : Except Error Message :=
  if !j.isObject then throw .notObject
  else
    let type := typeOf j
    if type = octets "price_update" then (priceOf type arrival j).map price
    else if type = octets "orderbook_update" then (orderBookOf type arrival j).map orderBook
    else if type = octets "trade" then (tradeOf type arrival j).map trade
    else if type = octets "heartbeat" then pure heartbeat
    else (j.write.mapError .document).map (unknown type)

/-- What a frame carries, if it arrived at a certain time. -/
def ofFrame (arrival : Instant) (frame : Octets) : Except Error Message :=
  ((Json.read frame).mapError .document).bind (ofJson arrival)

def frame (members : List (Octets × Json)) : Except Json.Error Octets := (Json.ofMembers members).write

/-- The frame that keeps a connection alive. -/
def ping : Except Json.Error Octets := frame [(octets "type", .text (octets "ping"))]

end Message

end QuoteFeed
