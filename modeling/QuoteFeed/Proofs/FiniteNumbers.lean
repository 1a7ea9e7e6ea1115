import QuoteFeed.Proofs.BookLevels
import QuoteFeed.Proofs.EpochTimes
import QuoteFeed.Proofs.QuoteRecord

/-!
Finite numbers. No frame brings anything else, and so there is nothing else on a client's board or in what it tells,
whatever consumers do.
-/

namespace QuoteFeed

/-! ### Messages -/

structure Quote.IsFinite (q : Quote) : Prop where
  price : q.price.isFinite = true
  volume : q.volume.isFinite = true
  change : q.change.isFinite = true

structure Trade.IsFinite (t : Trade) : Prop where
  price : t.price.isFinite = true
  amount : t.amount.isFinite = true

structure Level.IsFinite (level : Level) : Prop where
  price : level.price.isFinite = true
  size : level.size.isFinite = true

structure OrderBook.IsFinite (b : OrderBook) : Prop where
  bids : ∀ level ∈ b.bids, level.IsFinite
  asks : ∀ level ∈ b.asks, level.IsFinite

structure MoveSignal.IsFinite (m : MoveSignal) : Prop where
  change : m.change.isFinite = true
  magnitude : m.magnitude.isFinite = true
  price : m.price.isFinite = true

namespace Message

def IsFinite : Message → Prop
  | price q => q.IsFinite
  | orderBook b => b.IsFinite
  | trade t => t.IsFinite
  | heartbeat | unknown .. => True

/-- The instrument that a message is about. -/
def market? : Message → Option Octets
  | price q => some q.market
  | orderBook b => some b.market
  | trade t => some t.market
  | heartbeat | unknown .. => none

def time? : Message → Option Instant
  | price q => some q.time
  | orderBook b => some b.time
  | trade t => some t.time
  | heartbeat | unknown .. => none

/-- What a document carries is fit to be kept: its numbers are finite, its instrument is the one that the document
names, and its time, within 64 bits, is that of arrival or the one that the document tells. -/
structure IsFit (arrival : Instant) (j : Json) (m : Message) : Prop where
  finite : m.IsFinite
  market : ∀ id ∈ m.market?, id ≠ [] ∧ j.member? (octets "marketId") = some (.text id)
  time : ∀ t ∈ m.time?, int64Min ≤ t.ns ∧ t.ns ≤ int64Max ∧
    (t = arrival ∨ ∃ v, j.member? (octets "timestamp") = some v ∧
      Within64.timestamp (octets "timestamp") v = some (.ok t))

variable {arrival t : Instant} {type key id : Octets} {j : Json} {x : Binary64}

theorem isFinite_of_numberField (h : numberField key j = .ok x) : x.isFinite = true := by
  unfold numberField at h
  split at h
  next =>
    cases h
    rfl
  next v _ =>
    cases hnumber : finiteNumber? v with
    | none =>
      rw [hnumber] at h
      cases h
    | some y =>
      rw [hnumber] at h
      obtain rfl : y = x := Except.ok.inj h
      exact (denotes_of_finiteNumber? hnumber).isFinite

theorem member_of_market (h : market type j = .ok id) : id ≠ [] ∧ j.member? (octets "marketId") = some (.text id) := by
  refine ⟨market_ne_nil h, ?_⟩
  unfold market at h
  split at h
  next b s hmember =>
    cases h
    obtain ⟨v, hv, htext⟩ := Option.bind_eq_some_iff.mp hmember
    cases v with
    | text s' => rw [hv, Option.some.inj htext]
    | _ => cases htext
  next => cases h

theorem told_of_timeField (h : timeField (octets "timestamp") arrival j = .ok t) :
    t = arrival ∨ ∃ v, j.member? (octets "timestamp") = some v ∧
      Within64.timestamp (octets "timestamp") v = some (.ok t) := by
  unfold timeField at h
  split at h
  next =>
    cases h
    exact .inl rfl
  next v hpresent =>
    refine .inr ⟨v, ?_, ?_⟩
    · unfold present? at hpresent
      split at hpresent
      next => cases hpresent
      next => cases hpresent
      next hmember => exact hmember.trans hpresent
    · rw [Within64.timestamp_eq, h]

theorem levels_finite (key : Octets) (j : Json) : ∀ level ∈ levels key j, level.IsFinite := by
  intro level hlevel
  obtain ⟨item, -, hitem⟩ := List.mem_filterMap.mp hlevel
  obtain ⟨_, _, _, -, hprice, hsize⟩ := (level?_eq_some_iff ..).mp hitem
  exact ⟨hprice.isFinite, hsize.isFinite⟩

theorem isFit_of_priceOf {q : Quote} (h : priceOf type arrival j = .ok q) : IsFit arrival j (.price q) := by
  obtain ⟨id, hid, h⟩ := Except.exists_of_bind_eq_ok h
  obtain ⟨price, hprice, h⟩ := Except.exists_of_bind_eq_ok h
  obtain ⟨time, htime, h⟩ := Except.exists_of_bind_eq_ok h
  obtain ⟨volume, hvolume, h⟩ := Except.exists_of_bind_eq_ok h
  obtain ⟨change, hchange, h⟩ := Except.exists_of_bind_eq_ok h
  cases h
  refine ⟨⟨isFinite_of_numberField hprice, isFinite_of_numberField hvolume, isFinite_of_numberField hchange⟩, ?_, ?_⟩
  · rintro _ ⟨⟩
    exact member_of_market hid
  · rintro _ ⟨⟩
    exact ⟨time.low, time.high, told_of_timeField htime⟩

theorem isFit_of_tradeOf {d : Trade} (h : tradeOf type arrival j = .ok d) : IsFit arrival j (.trade d) := by
  obtain ⟨id, hid, h⟩ := Except.exists_of_bind_eq_ok h
  obtain ⟨price, hprice, h⟩ := Except.exists_of_bind_eq_ok h
  obtain ⟨amount, hamount, h⟩ := Except.exists_of_bind_eq_ok h
  obtain ⟨time, htime, h⟩ := Except.exists_of_bind_eq_ok h
  cases h
  refine ⟨⟨isFinite_of_numberField hprice, isFinite_of_numberField hamount⟩, ?_, ?_⟩
  · rintro _ ⟨⟩
    exact member_of_market hid
  · rintro _ ⟨⟩
    exact ⟨time.low, time.high, told_of_timeField htime⟩

theorem isFit_of_orderBookOf {b : OrderBook} (h : orderBookOf type arrival j = .ok b) :
    IsFit arrival j (.orderBook b) := by
  obtain ⟨id, hid, h⟩ := Except.exists_of_bind_eq_ok h
  cases h
  refine ⟨⟨levels_finite _ j, levels_finite _ j⟩, ?_, ?_⟩
  · rintro _ ⟨⟩
    exact member_of_market hid
  · rintro _ ⟨⟩
    exact ⟨arrival.low, arrival.high, .inl rfl⟩

theorem isFit_of_ofJson {m : Message} (h : ofJson arrival j = .ok m) : IsFit arrival j m := by
  have hempty : ∀ m : Message, m.market? = none → m.time? = none → m.IsFinite → IsFit arrival j m := by
    intro m hmarket htime hfinite
    refine ⟨hfinite, ?_, ?_⟩
    · rw [hmarket]
      rintro _ ⟨⟩
    · rw [htime]
      rintro _ ⟨⟩
  simp only [ofJson] at h
  split at h
  next => cases h
  split at h
  next =>
    obtain ⟨q, hq, rfl⟩ := Except.exists_of_map_eq_ok h
    exact isFit_of_priceOf hq
  split at h
  next =>
    obtain ⟨b, hb, rfl⟩ := Except.exists_of_map_eq_ok h
    exact isFit_of_orderBookOf hb
  split at h
  next =>
    obtain ⟨d, hd, rfl⟩ := Except.exists_of_map_eq_ok h
    exact isFit_of_tradeOf hd
  split at h
  next =>
    cases h
    exact hempty _ rfl rfl trivial
  next =>
    obtain ⟨raw, -, rfl⟩ := Except.exists_of_map_eq_ok h
    exact hempty _ rfl rfl trivial

theorem isFinite_of_ofFrame {frame : Octets} {m : Message} (h : ofFrame arrival frame = .ok m) : m.IsFinite := by
  obtain ⟨j, -, hj⟩ := Except.exists_of_bind_eq_ok h
  exact (isFit_of_ofJson hj).finite

end Message

/-! ### Clients -/

def Event.IsFinite : Event → Prop
  | price q => q.IsFinite
  | significantMove m => m.IsFinite
  | orderBook b => b.IsFinite
  | trade t => t.IsFinite
  | _ => True

theorem Event.IsNotice.isFinite {e : Event} (h : e.IsNotice) : e.IsFinite := by
  cases e with
  | price | significantMove | orderBook | trade => exact h.elim
  | _ => trivial

variable {β τ : Type} {net : Network τ} {c : Conduct net} {may : Use → Prop}

/-- There are only finite numbers on the board, and in all that has been told. -/
structure World.IsFinite (w : World τ) : Prop where
  quotes : ∀ q ∈ w.client.board.quotes, q.IsFinite
  told : ∀ m ∈ w.history, ∀ e, m.deed = .publishes e → e.IsFinite

namespace World.IsFinite

variable {w v : World τ}

theorem of_same (h : w.IsFinite) (hboard : v.client.board = w.client.board) (hhistory : v.history = w.history) :
    v.IsFinite :=
  ⟨hboard ▸ h.quotes, hhistory ▸ h.told⟩

theorem noted (h : w.IsFinite) {d : Deed} (hd : ∀ e, d = .publishes e → e.IsFinite) : (w.noted d).IsFinite := by
  refine ⟨h.quotes, fun m hm => ?_⟩
  rcases List.mem_cons.mp hm with rfl | hm
  · exact hd
  · exact h.told m hm

theorem aside (h : w.IsFinite) {d : Deed} (hd : d.IsAside) : (w.noted d).IsFinite := by
  refine h.noted ?_
  rintro e rfl
  exact Event.IsNotice.isFinite hd

end World.IsFinite

theorem Quote.IsFinite.move {limit : Binary64} {q : Quote} (h : q.IsFinite) {m : MoveSignal}
    (hm : PriceBoard.moveSignal? limit q = some m) : m.IsFinite := by
  unfold PriceBoard.moveSignal? at hm
  split at hm
  next =>
    obtain rfl := Option.some.inj hm
    have habs : q.change.abs.isFinite = true := by
      have hchange := h.change
      cases hx : q.change with
      | finite => rfl
      | _ =>
        rw [hx] at hchange
        cases hchange
    exact ⟨h.change, habs, h.price⟩
  next => cases hm

theorem PriceBoard.mem_store {p q : Quote} {quotes : List Quote} (h : p ∈ store q quotes) : p = q ∨ p ∈ quotes := by
  induction quotes with
  | nil => exact .inl (List.mem_singleton.mp h)
  | cons r rest ih =>
    unfold store at h
    split at h
    · exact (List.mem_cons.mp h).imp_right (List.mem_cons_of_mem r)
    · rcases List.mem_cons.mp h with rfl | h
      · exact .inr List.mem_cons_self
      · exact (ih h).imp_right (List.mem_cons_of_mem r)

/-! ### Whatever consumers do -/

section

variable {P : World τ → Prop} {s : Stage β (World τ)}

/-- A law that a client keeps if its consumers do is kept by consumers that do what they like. -/
theorem Consumer.upholds (hlaw : ∀ {emit : Event → Step (Stage β (World τ)) Unit}, (∀ e, Upholds P (emit e)) →
    QuoteLaw net emit P) {emit : Event → Step (Stage β (World τ)) Unit} (h : Consumer c may emit) (e : Event) :
    Upholds P (emit e) := by
  induction h generalizing e with
  | deaf => exact fun _ _ => Step.ends_exhausted
  | hearing _ hrun ih =>
    intro s hs
    simp only [Stage.publish, Step.ends_bind, Step.ends_get]
    exact Discipline.ends_deliver (fun slot t ht => (hlaw ih).uses (hrun slot e) t ht) _ hs

/-- Where a run is broken off, the law held before. -/
theorem Upholds.breakOff {u : Stage β (World τ)} {emit emit' : Event → Step (Stage β (World τ)) Unit}
    (h : ∀ e, Upholds P (emit e)) (hb : BreaksOff u emit emit') (e : Event) : Upholds P (emit' e) := by
  intro s hs r t ho
  by_cases hsu : s = u
  · subst hsu
    rw [hb.here e] at ho
    obtain ⟨rfl, rfl⟩ := Prod.mk.inj (Option.some.inj ho)
    exact hs
  · rw [hb.elsewhere e s hsu] at ho
    exact h e s hs r t ho

/-- A law that holds at the start, and that a client keeps if its consumers do, holds wherever it is seen. -/
theorem Seen.upholds (hlaw : ∀ {emit : Event → Step (Stage β (World τ)) Unit}, (∀ e, Upholds P (emit e)) →
      QuoteLaw net emit P)
    (hstart : ∀ settings endpoint t epoch, P { client := .ofSettings settings endpoint, outside := t, epoch })
    (h : Seen c may s) : P s.rest := by
  have hdeaf : QuoteLaw net (fun _ => Step.exhausted : Event → Step (Stage β (World τ)) Unit) P :=
    hlaw fun _ _ _ => Step.ends_exhausted
  have hlapses : ∀ {w v : World τ} {u : Wait}, P w → Lapses w u v → P v := fun hw hl =>
    hdeaf.of_same hw (congrArg Client.board hl.client_eq) hl.epoch_eq hl.history_eq
  have hbetween : ∀ {s : Stage β (World τ)}, Reached c may s → P s.rest := by
    intro s hs
    induction hs with
    | @start settings client t _ _ epoch hcreate _ =>
      obtain ⟨endpoint, rfl⟩ := Client.eq_ofSettings hcreate
      exact hstart settings endpoint t epoch
    | @use _ s _ _ _ r _ hemit hx ho ih =>
      have hends := (hlaw (hemit.upholds hlaw)).uses hx s ih
      cases r with
      | ok a => exact hends.value ho
      | error e => exact hends.failure ho
    | pass now _ ih => exact hdeaf.of_same ih rfl rfl rfl
    | @lapse s _ _ v w r _ hemit hl ho ih =>
      have hends := (hlaw (hemit.upholds hlaw)).fire v { s with rest := w } (hlapses ih hl)
      cases r with
      | ok a => exact hends.value ho
      | error e => exact hends.failure ho
  induction h with
  | between hs => exact hbetween hs
  | @acting _ s _ _ _ r _ hemit hx ho ih =>
    have hends := (hlaw (hemit.upholds hlaw)).uses hx s ih
    cases r with
    | ok a => exact hends.value ho
    | error e => exact hends.failure ho
  | @during s _ _ _ op _ hemit hb _ ho ih =>
    have hends := (hlaw (Upholds.breakOff (hemit.upholds hlaw) hb)).perform (c := c) op s ih
    exact hends.failure ho
  | @ringing s _ _ _ v w hs hemit hb hl ho =>
    have hends := (hlaw (Upholds.breakOff (hemit.upholds hlaw) hb)).fire v { s with rest := w }
      (hlapses (hbetween hs) hl)
    exact hends.failure ho

end

/-! ### Finite numbers only -/

variable {emit : Event → Step (Stage β (World τ)) Unit}

theorem upholds_measure (name : Octets) (value : Binary64) :
    Upholds World.IsFinite (Client.measure net name value : Step (Stage β (World τ)) Unit) := by
  intro s hs
  refine Client.ends_outside.mpr ((hs.noted ?_).of_same rfl rfl)
  rintro _ ⟨⟩

section

variable (hemit : ∀ e, Upholds World.IsFinite (emit e))
include hemit

theorem upholds_tell {e : Event} (he : e.IsFinite) : Upholds World.IsFinite (Client.tell emit e) := by
  refine Upholds.bind (fun s hs => Client.ends_remember.mpr (hs.noted ?_)) fun _ => hemit e
  rintro _ ⟨⟩
  exact he

/-- A finite quote is kept, and the signals that it gives are told with its numbers. -/
theorem upholds_receiveQuote {q : Quote} (hq : q.IsFinite) : Upholds World.IsFinite (Client.receiveQuote emit q) := by
  intro s hs
  have hboard : ({ s.rest with client.board := (s.rest.client.board.update q).2 } : World τ).IsFinite := by
    refine ⟨fun p hp => ?_, hs.told⟩
    rcases PriceBoard.mem_store hp with rfl | hp
    · exact hq
    · exact hs.quotes p hp
  have hmove : ∀ m, (s.rest.client.board.update q).1.move = some m → m.IsFinite := by
    intro m hm
    unfold PriceBoard.update PriceBoard.signals at hm
    split at hm
    next => cases hm
    next => exact hq.move hm
  simp only [Client.receiveQuote, Step.ends_bind, Client.ends_current]
  generalize s.rest.client.board.update q = update at hboard hmove
  obtain ⟨⟨stale, move⟩, board⟩ := update
  simp only [Client.ends_change]
  have hprice : Upholds World.IsFinite (Client.tell emit (.price q)) := upholds_tell hemit hq
  have hstale : ∀ signal, Upholds World.IsFinite (Client.tell emit (.stalePrice signal)) := fun _ =>
    upholds_tell hemit trivial
  have hsignal : ∀ m, move = some m → Upholds World.IsFinite (Client.tell emit (.significantMove m)) := fun m hm =>
    upholds_tell hemit (hmove m hm)
  cases stale with
  | none =>
    cases move with
    | none => exact hprice _ hboard
    | some move => exact (hsignal move rfl).bind (fun _ => hprice) _ hboard
  | some stale =>
    cases move with
    | none => exact (hstale stale).bind (fun _ => hprice) _ hboard
    | some move => exact (hstale stale).bind (fun _ => (hsignal move rfl).bind fun _ => hprice) _ hboard

theorem upholds_receiveMessage {m : Message} (hm : m.IsFinite) :
    Upholds World.IsFinite (Client.receiveMessage net emit m) := by
  cases m with
  | price q => exact upholds_receiveQuote hemit hm
  | orderBook b => exact upholds_tell hemit hm
  | trade t => exact upholds_tell hemit hm
  | heartbeat =>
    intro s hs
    simp only [Client.receiveMessage, Client.ends_changeHeartbeat]
    exact hs.of_same rfl rfl
  | unknown type raw => exact (upholds_measure _ _).bind fun _ => upholds_tell hemit trivial

theorem upholds_receiveFrame (payload : Octets) : Upholds World.IsFinite (Client.receiveFrame net emit payload) := by
  unfold Client.receiveFrame
  refine (upholds_measure _ _).bind fun _ => upholds_wallClock.bind fun arrival => ?_
  cases hread : Message.ofFrame arrival payload with
  | ok m => exact upholds_receiveMessage hemit (Message.isFinite_of_ofFrame hread)
  | error e => exact (upholds_measure _ _).bind fun _ => upholds_tell hemit trivial

theorem finiteLaw : QuoteLaw net emit World.IsFinite where
  of_same h hboard _ hhistory := h.of_same hboard hhistory
  aside h hd := h.aside hd
  emits := hemit
  frame payload := by
    refine Upholds.bind (fun s hs => Client.ends_remember.mpr (hs.noted ?_)) fun _ => upholds_receiveFrame hemit payload
    rintro _ ⟨⟩
  cleared := by
    intro w v hw hboard _ hhistory
    have hv : v.IsFinite := by
      refine ⟨?_, hhistory ▸ hw.told⟩
      rw [hboard]
      rintro q ⟨⟩
    refine hv.noted ?_
    rintro _ ⟨⟩

end

/-- Only finite numbers enter: whatever document is decoded, the message is fit to be kept; and wherever a client is
seen, whatever its consumers do, all quotes on its board and all prices, moves, books and trades that it has told
have finite numbers only. -/
theorem finite_numbers_only {s : Stage β (World τ)} (h : Seen c may s) :
    (∀ (arrival : Instant) (j : Json) (m : Message), Message.ofJson arrival j = .ok m → m.IsFit arrival j) ∧
    (∀ q ∈ s.rest.client.board.quotes, q.IsFinite) ∧
    ∀ m ∈ s.rest.history, ∀ e, m.deed = .publishes e → e.IsFinite := by
  have hfinite : s.rest.IsFinite := h.upholds finiteLaw fun _ _ _ _ => ⟨by rintro q ⟨⟩, by rintro m ⟨⟩⟩
  exact ⟨fun _ _ _ => Message.isFit_of_ofJson, hfinite.quotes, hfinite.told⟩

namespace ScriptedLinks

/-- After one price, a second one has moved by more than the limit, and a third one was no number. -/
def movedRun : Stage Unit (World ScriptedLinks) :=
  played false { moves := [.opens] } {} quietly [.connect,
    .report 0 0 (.frame (octets "\x7b\"type\":\"price_update\",\"marketId\":\"A\"\x7d")),
    .report 0 0 (.frame movedFrame),
    .report 0 0 (.frame (octets "\x7b\"type\":\"price_update\",\"marketId\":\"A\",\"price\":\"nan\"\x7d"))]

/-- The signal of the move. -/
def toldMove : MoveSignal where
  market := octets "A"
  change := .ofInt 9
  magnitude := .ofInt 9
  price := .ofInt 2

theorem movedRun_finite : movedRun.rest.client.board.quotes = [movedQuote] ∧ movedQuote.IsFinite ∧
    Deed.publishes (.significantMove toldMove) ∈ movedRun.rest.history.map Moment.deed ∧ toldMove.IsFinite := by
  have hs : Reached (conduct false) (fun _ => True) movedRun :=
    reached_played (conduct_blank (by decide) rfl (by decide)) consumer_quietly fun _ _ => trivial
  obtain ⟨-, hquotes, htold⟩ := finite_numbers_only (.between hs)
  have hboard : movedRun.rest.client.board.quotes = [movedQuote] := by decide +kernel
  have hmove : Deed.publishes (.significantMove toldMove) ∈ movedRun.rest.history.map Moment.deed := by decide +kernel
  obtain ⟨m, hm, hdeed⟩ := List.mem_map.mp hmove
  exact ⟨hboard, hquotes movedQuote (by rw [hboard]; exact List.mem_singleton_self _), hmove, htold m hm _ hdeed⟩

end ScriptedLinks

end QuoteFeed
