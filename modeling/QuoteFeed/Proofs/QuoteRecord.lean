import QuoteFeed.Proofs.Fronts
import QuoteFeed.Proofs.LateReports
import QuoteFeed.Proofs.Routing
import QuoteFeed.Proofs.Upholding
import QuoteFeed.Proofs.Watching

/-!
The board as a record of what has been told: while consumers only observe, the last quote of an instrument
is the last one that was told of it since the client was disconnected, and the quotes told are those of the
frames that were heard, one for each and in the same order.
-/

namespace QuoteFeed

variable {β τ : Type} {net : Network τ} {c : Conduct net} {may : Use → Prop} {w v : World τ}

namespace Message

variable {arrival : Instant} {type : Octets} {j : Json} {q : Quote}

theorem market_ne_nil {id : Octets} (h : market type j = .ok id) : id ≠ [] := by
  unfold market at h
  split at h
  next b s _ =>
    cases h
    exact List.cons_ne_nil b s
  next => cases h

theorem market_of_priceOf (h : priceOf type arrival j = .ok q) : market type j = .ok q.market := by
  obtain ⟨id, hid, h⟩ := Except.exists_of_bind_eq_ok h
  obtain ⟨price, -, h⟩ := Except.exists_of_bind_eq_ok h
  obtain ⟨time, -, h⟩ := Except.exists_of_bind_eq_ok h
  obtain ⟨volume, -, h⟩ := Except.exists_of_bind_eq_ok h
  obtain ⟨change, -, h⟩ := Except.exists_of_bind_eq_ok h
  cases h
  exact hid

/-- Frames of one type only carry quotes. -/
theorem priceOf_of_ofJson (h : ofJson arrival j = .ok (.price q)) : priceOf (typeOf j) arrival j = .ok q := by
  have hmap : ∀ {α : Type} {x : Except Error α} {f : α → Message}, x.map f = .ok (.price q) →
      (∀ a, f a ≠ .price q) → False := fun hx hf =>
    let ⟨a, _, ha⟩ := Except.exists_of_map_eq_ok hx
    hf a ha
  simp only [ofJson] at h
  split at h
  next => cases h
  split at h
  next =>
    obtain ⟨p, hp, he⟩ := Except.exists_of_map_eq_ok h
    cases he
    exact hp
  split at h
  next => exact (hmap h fun _ => Message.noConfusion).elim
  split at h
  next => exact (hmap h fun _ => Message.noConfusion).elim
  split at h
  next => cases h
  next => exact (hmap h fun _ => Message.noConfusion).elim

end Message

def Deed.quoteTold? : Deed → Option Quote
  | publishes (.price q) => some q
  | _ => none

namespace Fate

/-- The quote that a frame carries. -/
def quote? : Fate → Option Quote
  | .ok (.price q) => some q
  | _ => none

/-- A frame that carries a quote names its instrument. -/
theorem market_ne_nil {arrival : Instant} {payload : Octets} {q : Quote}
    (h : ofFrame arrival payload = .ok (.price q)) : q.market ≠ [] := by
  have hm : Message.ofFrame arrival payload = .ok (.price q) := Except.eq_ok_of_mapError h
  obtain ⟨j, -, hj⟩ := Except.exists_of_bind_eq_ok hm
  exact Message.market_ne_nil (Message.market_of_priceOf (Message.priceOf_of_ofJson hj))

theorem quote?_eq_some {fate : Fate} {q : Quote} (h : fate.quote? = some q) : fate = .ok (.price q) := by
  rcases fate with text | m
  · cases h
  · cases m with
    | price p => rw [Option.some.inj h]
    | _ => cases h

/-- The only quote that is told of a frame is the one that it carries. -/
theorem quotesTold_deeds (board : PriceBoard) (payload : Octets) (fate : Fate) :
    (fate.deeds board payload).filterMap Deed.quoteTold? = fate.quote?.toList := by
  rcases fate with text | m
  · rfl
  · cases m with
    | price q =>
      rcases hs : (board.update q).1 with ⟨stale, move⟩
      simp only [deeds, hs, Signals.events]
      cases stale <;> cases move <;> rfl
    | _ => rfl

/-- A frame is dealt with by measuring and telling only. -/
theorem deeds_mem {board : PriceBoard} {payload : Octets} {fate : Fate} {d : Deed}
    (h : d ∈ fate.deeds board payload) : (∃ name value, d = .measures name value) ∨ ∃ e, d = .publishes e := by
  rcases fate with text | m
  · rcases List.mem_cons.mp h with rfl | h
    · exact .inl ⟨_, _, rfl⟩
    · exact .inr ⟨_, List.mem_singleton.mp h⟩
  · cases m with
    | price q =>
      rcases List.mem_append.mp h with h | h
      · obtain ⟨e, -, rfl⟩ := List.mem_map.mp h
        exact .inr ⟨e, rfl⟩
      · exact .inr ⟨_, List.mem_singleton.mp h⟩
    | orderBook b => exact .inr ⟨_, List.mem_singleton.mp h⟩
    | trade t => exact .inr ⟨_, List.mem_singleton.mp h⟩
    | heartbeat => cases h
    | unknown type raw =>
      rcases List.mem_cons.mp h with rfl | h
      · exact .inl ⟨_, _, rfl⟩
      · exact .inr ⟨_, List.mem_singleton.mp h⟩

theorem apply_history (fate : Fate) (w : World τ) : (fate.apply w).history = w.history := by
  rcases fate with text | m
  · rfl
  · cases m <;> rfl

theorem apply_board (fate : Fate) (w : World τ) :
    (fate.apply w).client.board = fate.quote?.elim w.client.board fun q => (w.client.board.update q).2 := by
  rcases fate with text | m
  · rfl
  · cases m <;> rfl

end Fate

/-- The quote of a frame that is heard, decoded at the time of its arrival. -/
def Moment.quoteHeard? (epoch : Instant) (m : Moment) : Option Quote :=
  match m.deed with
  | .hears (.frame payload) => (Fate.ofFrame (epoch.after m.clock.now) payload).quote?
  | _ => none

/-- The quotes that have been told, the last one first. -/
def quotesTold (history : List Moment) : List Quote := (history.map Moment.deed).filterMap Deed.quoteTold?

/-- The quotes of the frames that have been heard, the last one first. -/
def quotesHeard (epoch : Instant) (history : List Moment) : List Quote :=
  history.filterMap (Moment.quoteHeard? epoch)

/-- What has been done since the client was disconnected the last time. -/
def sinceDisconnected (history : List Moment) : List Moment := history.takeWhile fun m => m.deed ≠ .disconnects

/-- The last quote of an instrument that has been told since the client was disconnected the last time. -/
def lastTold? (id : Octets) (history : List Moment) : Option Quote :=
  (quotesTold (sinceDisconnected history)).find? fun q => q.market = id

section

variable {epoch : Instant} {history added : List Moment} {m : Moment} {d : Deed} {id : Octets}

theorem Deed.IsAside.quoteTold? (h : d.IsAside) : d.quoteTold? = none := by
  cases d with
  | publishes e => cases e <;> first | rfl | exact h.elim
  | _ => rfl

theorem Deed.IsAside.quoteHeard? (h : m.deed.IsAside) : m.quoteHeard? epoch = none := by
  obtain ⟨client, clock, d⟩ := m
  cases d with
  | hears r => cases r <;> first | rfl | exact absurd rfl (h _)
  | _ => rfl

theorem quotesTold_append : quotesTold (added ++ history) = quotesTold added ++ quotesTold history := by
  rw [quotesTold, List.map_append, List.filterMap_append]
  rfl

theorem quotesTold_aside (h : m.deed.IsAside) : quotesTold (m :: history) = quotesTold history := by
  simp only [quotesTold, List.map_cons, List.filterMap_cons, h.quoteTold?]

theorem quotesHeard_aside (h : m.deed.IsAside) : quotesHeard epoch (m :: history) = quotesHeard epoch history := by
  simp only [quotesHeard, List.filterMap_cons, h.quoteHeard?]

theorem sinceDisconnected_append (h : ∀ m ∈ added, m.deed ≠ .disconnects) :
    sinceDisconnected (added ++ history) = added ++ sinceDisconnected history :=
  List.takeWhile_append_of_pos fun m hm => decide_eq_true (h m hm)

theorem lastTold?_append (h : ∀ m ∈ added, m.deed ≠ .disconnects) :
    lastTold? id (added ++ history) = ((quotesTold added).find? fun q => q.market = id).or (lastTold? id history) := by
  rw [lastTold?, sinceDisconnected_append h, quotesTold_append, List.find?_append]
  rfl

end

/-- What is told and what is kept agree, and what is told has been heard. -/
structure Recorded (epoch : Instant) (w : World τ) : Prop where
  zero : w.epoch = epoch
  last : ∀ id, w.client.board.last? id = lastTold? id w.history
  told : quotesTold w.history = quotesHeard epoch w.history
  keyed : w.client.board.Keyed

section

variable {epoch : Instant}

theorem Recorded.of_same (h : Recorded epoch w) (hboard : v.client.board = w.client.board) (hepoch : v.epoch = w.epoch)
    (hhistory : v.history = w.history) : Recorded epoch v := by
  refine ⟨hepoch.trans h.zero, ?_, ?_, hboard ▸ h.keyed⟩
  · rw [hboard, hhistory]
    exact h.last
  · rw [hhistory]
    exact h.told

theorem Recorded.aside {d : Deed} (h : Recorded epoch w) (hd : d.IsAside) : Recorded epoch (w.noted d) where
  zero := h.zero
  last id := by
    have hne : ∀ m ∈ [(⟨w.client, w.clock, d⟩ : Moment)], m.deed ≠ .disconnects := by
      simp only [List.mem_singleton, forall_eq]
      rintro rfl
      exact hd
    refine (h.last id).trans ?_
    rw [World.noted, ← List.singleton_append, lastTold?_append hne]
    simp only [quotesTold, List.map_cons, List.map_nil, List.filterMap_cons, hd.quoteTold?, List.filterMap_nil,
      List.find?_nil, Option.none_or]
  told := by
    refine (quotesTold_aside hd).trans (h.told.trans (Eq.symm ?_))
    exact quotesHeard_aside hd
  keyed := h.keyed

/-- To be disconnected is to forget what has been told. -/
theorem Recorded.cleared (h : Recorded epoch w) (hboard : v.client.board = w.client.board.clear)
    (hepoch : v.epoch = w.epoch) (hhistory : v.history = w.history) : Recorded epoch (v.noted .disconnects) where
  zero := hepoch.trans h.zero
  last id := by
    simp [World.noted, hboard, PriceBoard.clear, PriceBoard.last?, lastTold?, sinceDisconnected, quotesTold]
  told := by
    have htold := h.told
    simp only [World.noted, quotesTold, quotesHeard, List.map_cons, List.filterMap_cons, hhistory,
      Deed.quoteTold?, Moment.quoteHeard?] at htold ⊢
    exact htold
  keyed := by
    rw [World.noted, hboard]
    exact w.client.board.keyed_clear

/-- A frame has been heard and dealt with, and nothing else has been heard or told. -/
structure Heard (payload : Octets) (fate : Fate) (w v : World τ) (added : List Moment) : Prop where
  history : v.history = added ++ ⟨w.client, w.clock, .hears (.frame payload)⟩ :: w.history
  plain : ∀ m ∈ added, (∃ name value, m.deed = .measures name value) ∨ ∃ e, m.deed = .publishes e
  told : quotesTold added = fate.quote?.toList

theorem Merely.heard {payload : Octets} {fate : Fate}
    (h : Merely (.measures (octets "frame_bytes") (.ofInt payload.length) :: fate.deeds w.client.board payload)
      (fate.apply (w.noted (.hears (.frame payload)))) v) : ∃ added, Heard payload fate w v added := by
  obtain ⟨-, -, added, hadded, hdeeds⟩ := h
  refine ⟨added, ?_, ?_, ?_⟩
  · rw [hadded, Fate.apply_history]
    rfl
  · intro m hm
    have hd : m.deed ∈ added.map Moment.deed := List.mem_map_of_mem hm
    rw [hdeeds, List.mem_reverse] at hd
    rcases List.mem_cons.mp hd with hd | hd
    · exact .inl ⟨_, _, hd⟩
    · exact Fate.deeds_mem hd
  · have hquotes := Fate.quotesTold_deeds w.client.board payload fate
    simp only [quotesTold, hdeeds, List.filterMap_reverse, List.filterMap_cons, Deed.quoteTold?, hquotes]
    cases fate.quote? <;> rfl

theorem Heard.quotesTold {payload : Octets} {fate : Fate} {added : List Moment} (h : Heard payload fate w v added) :
    quotesTold v.history = fate.quote?.toList ++ quotesTold w.history := by
  rw [h.history, quotesTold_append, h.told]
  rfl

/-- A frame has been heard and dealt with: what it carries is told, and takes its place on the board. -/
theorem Recorded.heard {payload : Octets} {fate : Fate} (h : Recorded epoch w)
    (hfate : fate = Fate.ofFrame (w.epoch.after w.clock.now) payload) (hepoch : v.epoch = w.epoch)
    (hv : Merely (.measures (octets "frame_bytes") (.ofInt payload.length) :: fate.deeds w.client.board payload)
      (fate.apply (w.noted (.hears (.frame payload)))) v) : Recorded epoch v := by
  obtain ⟨added, hadded⟩ := hv.heard
  let heard : Moment := ⟨w.client, w.clock, .hears (.frame payload)⟩
  have hhistory : v.history = added ++ [heard] ++ w.history := by
    rw [hadded.history, List.append_assoc]
    rfl
  have htold : quotesTold (added ++ [heard]) = fate.quote?.toList := by
    rw [quotesTold_append, hadded.told]
    exact List.append_nil _
  have hheard : quotesHeard epoch (added ++ [heard]) = fate.quote?.toList := by
    have hnone : added.filterMap (Moment.quoteHeard? epoch) = [] := by
      refine List.filterMap_eq_nil_iff.mpr fun m hm => ?_
      rcases hadded.plain m hm with ⟨name, value, hd⟩ | ⟨e, hd⟩ <;> simp only [Moment.quoteHeard?, hd]
    have hm : heard.quoteHeard? epoch = fate.quote? := by
      rw [hfate, h.zero]
      rfl
    rw [quotesHeard, List.filterMap_append, hnone, List.nil_append, List.filterMap_cons, hm]
    cases fate.quote? <;> rfl
  have hne : ∀ m ∈ added ++ [heard], m.deed ≠ .disconnects := by
    intro m hm
    rcases List.mem_append.mp hm with hm | hm
    · rcases hadded.plain m hm with ⟨name, value, hd⟩ | ⟨e, hd⟩ <;> simp [hd]
    · rw [List.mem_singleton.mp hm]
      simp [heard]
  have hboard : v.client.board = fate.quote?.elim w.client.board fun q => (w.client.board.update q).2 := by
    rw [hv.client, Fate.apply_board]
    rfl
  refine ⟨hepoch.trans h.zero, ?_, ?_, ?_⟩
  · intro id
    rw [hhistory, lastTold?_append hne, htold, hboard, ← h.last id]
    cases fate.quote? with
    | none => rfl
    | some q =>
      simp only [Option.elim, PriceBoard.last?_update, Option.toList, List.find?_cons, List.find?_nil]
      by_cases hid : id = q.market
      · simp [hid]
      · simp [hid, Ne.symm hid]
  · rw [hhistory, quotesTold_append, quotesHeard, List.filterMap_append]
    exact congrArg₂ (· ++ ·) (htold.trans hheard.symm) h.told
  · rw [hboard]
    cases hq : fate.quote? with
    | none => exact h.keyed
    | some q => exact h.keyed.update (Fate.market_ne_nil (hfate.symm.trans (Fate.quote?_eq_some hq)))

end

variable {emit : Event → Step (Stage β (World τ)) Unit} {s t : Stage β (World τ)} {epoch : Instant}

/-- Observers cannot change the wall clock's zero. -/
theorem Consumer.upholds_epoch (h : Consumer c (fun _ => False) emit) (e : Event) :
    Upholds (fun w => w.epoch = epoch) (emit e) := by
  induction h generalizing e with
  | deaf => exact fun _ _ => Step.ends_exhausted
  | hearing _ hrun ih =>
    intro s hs
    simp only [Stage.publish, Step.ends_bind, Step.ends_get]
    refine Discipline.ends_deliver (P := fun w => w.epoch = epoch) (fun slot t ht => ?_) _ hs
    exact Uses.keeps (P := fun w => w.epoch = epoch) (hrun slot e) (fun hw _ => hw) (fun e s hs => ih e s hs)
      (fun hmay => hmay.elim) ht

theorem Client.receiveFrame_epoch (hemit : ∀ e, Upholds (fun w => w.epoch = epoch) (emit e)) (payload : Octets) :
    Upholds (fun w => w.epoch = epoch) (Client.receiveFrame net emit payload) := by
  have htell : ∀ e, Upholds (fun w => w.epoch = epoch) (Client.tell emit e) := fun e =>
    Upholds.bind (fun _ hs => Client.ends_remember.mpr hs) fun _ => hemit e
  have hmeasure : ∀ name value, Upholds (fun w => w.epoch = epoch)
      (Client.measure net name value : Step (Stage β (World τ)) Unit) := fun _ _ _ hs => Client.ends_outside.mpr hs
  have hquote : ∀ q, Upholds (fun w => w.epoch = epoch) (Client.receiveQuote emit q) := by
    intro q
    unfold Client.receiveQuote
    refine upholds_current.bind fun client => ?_
    rcases client.board.update q with ⟨⟨stale, move⟩, board⟩
    refine Upholds.bind (fun _ hs => Client.ends_change.mpr hs) fun _ => ?_
    cases stale with
    | none => cases move with
      | none => exact htell _
      | some move => exact (htell _).bind fun _ => htell _
    | some stale => cases move with
      | none => exact (htell _).bind fun _ => htell _
      | some move => exact (htell _).bind fun _ => (htell _).bind fun _ => htell _
  unfold Client.receiveFrame
  refine (hmeasure _ _).bind fun _ => upholds_wallClock.bind fun arrival => ?_
  cases Message.ofFrame arrival payload with
  | error e => exact (hmeasure _ _).bind fun _ => htell _
  | ok m =>
    cases m with
    | price q => exact hquote q
    | orderBook b => exact htell _
    | trade t => exact htell _
    | heartbeat =>
      intro s hs
      simp only [Client.receiveMessage, Client.ends_changeHeartbeat]
      exact hs
    | unknown type raw => exact (hmeasure _ _).bind fun _ => htell _

/-- While consumers only observe, the record is kept. -/
theorem Consumer.quoteLaw (h : Consumer c (fun _ => False) emit) : QuoteLaw net emit (Recorded epoch) where
  of_same := Recorded.of_same
  aside := Recorded.aside
  cleared := Recorded.cleared
  emits e s hs := by
    have hepoch : (emit e).Ends s (fun _ t => t.rest.epoch = epoch) fun _ t => t.rest.epoch = epoch :=
      h.upholds_epoch e s hs.zero
    refine ((observed_of_consumer h e s).and hepoch).mono ?_ fun _ _ he => he.1.elim
    exact fun _ t ht => hs.of_same (congrArg Client.board ht.1.client) (ht.2.trans hs.zero.symm) ht.1.history
  frame payload s hs := by
    simp only [Step.ends_bind, Client.ends_remember]
    let heard : Stage β (World τ) := { s with rest := s.rest.noted (.hears (.frame payload)) }
    refine (((observed_of_consumer h).receiveFrame (E := fun _ _ => False) payload).and
      (Client.receiveFrame_epoch h.upholds_epoch payload heard hs.zero)).mono ?_ fun _ _ he => he.1.elim
    exact fun _ t ht => hs.heard rfl (ht.2.trans hs.zero.symm) ht.1

theorem Follows.recorded (h : Follows c may s t) (hs : Recorded epoch s.rest) : Recorded epoch t.rest := by
  induction h with
  | refl => exact hs
  | @use _ t u emit x r _ hemit hx ho ih =>
    have hends := hemit.quoteLaw.uses hx _ ih
    cases r with
    | ok a => exact hends.value ho
    | error e => exact hends.failure ho
  | pass now _ ih => exact ih.of_same rfl rfl rfl
  | @lapse t u emit v w r _ hemit hl ho ih =>
    have hw : Recorded epoch w := by
      refine ih.of_same (congrArg Client.board hl.client_eq) ?_ hl.history_eq
      cases hl <;> rfl
    have hends := hemit.quoteLaw.fire v { t with rest := w } hw
    cases r with
    | ok a => exact hends.value ho
    | error e => exact hends.failure ho

theorem Watched.recorded (h : Watched c may s) : Recorded s.rest.epoch s.rest := by
  obtain ⟨settings, client, t, bus, journal, epoch, hcreate, hblank, hfollows⟩ := h
  obtain ⟨endpoint, rfl⟩ := Client.eq_ofSettings hcreate
  have hrecorded : Recorded epoch s.rest :=
    hfollows.recorded ⟨rfl, fun _ => rfl, rfl, ⟨List.nodup_nil, List.not_mem_nil⟩⟩
  rw [hrecorded.zero]
  exact hrecorded

/-- A board of quotes that have names holds each under its own. -/
theorem PriceBoard.Keyed.market_of_last? {b : PriceBoard} {id : Octets} {q : Quote} (h : b.Keyed)
    (hq : b.last? id = some q) : q.market = id ∧ id ≠ [] := by
  have hid : q.market = id := of_decide_eq_true (List.find?_some hq :)
  refine ⟨hid, ?_⟩
  rintro rfl
  exact h.named (hid ▸ List.mem_map_of_mem (List.mem_of_find?_eq_some hq))

/-- What a frame adds to what has been told: its quote, if it comes by the callback that the current link
has now, and nothing otherwise. -/
theorem Consumer.report_frame (hemit : Consumer c (fun _ => False) emit) (hs : Tied c s.rest) (link index : Nat)
    (payload : Octets) :
    ((Use.report link index (.frame payload)).perform c emit).Ends s (fun _ t =>
      quotesTold t.rest.history =
        (if s.rest.client.link = some link ∧ (c.attempts link s.rest.outside)[index]? = some s.rest.client.attempt then
          (Fate.ofFrame (s.rest.epoch.after s.rest.clock.now) payload).quote?.toList
        else []) ++ quotesTold s.rest.history) fun _ _ => False := by
  simp only [Use.perform, Step.ends_bind, Step.ends_get]
  cases ha : (c.attempts link s.rest.outside)[index]? with
  | none =>
    refine Step.ends_pure.mpr ?_
    simp
  | some attempt =>
    by_cases hcurrent : attempt = s.rest.client.attempt
    · have hl : s.rest.client.link = some link := (hs.attempts link attempt (List.mem_of_getElem? ha)).2 hcurrent
      simp only [Client.receive, Step.ends_bind, Client.ends_current, if_pos hcurrent, Client.ends_remember]
      refine ((observed_of_consumer hemit).receiveFrame payload).mono (fun _ t ht => ?_) fun _ _ he => he
      obtain ⟨added, hadded⟩ := Merely.heard (w := s.rest) ht
      simp only [hl, hcurrent, and_self, if_true]
      exact hadded.quotesTold
    · have hno : ¬(some attempt = some s.rest.client.attempt) := fun h => hcurrent (Option.some.inj h)
      refine (Step.ends_iff_of_outcome (receive_of_ne hcurrent _)).mpr ?_
      simp only [hno, and_false, if_false, List.nil_append]
      exact rfl

/-- Whatever has been done with a client that has observers only: its last quote of an instrument is the last
one that was told since it was disconnected, if any; the quotes that were told are those of the frames it has
heard, one for each and in the same order, and the frames it hears are those that come by the callback that the
current link has then; and each quote is kept under its own instrument's name. -/
theorem quotes_recorded (h : Watched c may s) :
    (∀ id, (Client.last? id).outcome s = some (.ok (lastTold? id s.rest.history), s)) ∧
    quotesTold s.rest.history = quotesHeard s.rest.epoch s.rest.history ∧
    (∀ emit : Event → Step (Stage β (World τ)) Unit, Consumer c (fun _ => False) emit →
      ∀ (link index : Nat) (payload : Octets),
        (((Use.report link index (.frame payload)).perform c emit).Ends s (fun _ t =>
          quotesTold t.rest.history =
            (if s.rest.client.link = some link ∧
                (c.attempts link s.rest.outside)[index]? = some s.rest.client.attempt then
              (Fate.ofFrame (s.rest.epoch.after s.rest.clock.now) payload).quote?.toList
            else []) ++ quotesTold s.rest.history) fun _ _ => False) ∧
        ((∀ event, (emit event).Settles) → ((Use.report link index (.frame payload)).perform c emit).Settles)) ∧
    (s.rest.client.board.quotes.map Quote.market).Nodup ∧
    ∀ id q, s.rest.client.board.last? id = some q → q.market = id ∧ id ≠ [] := by
  have hrecorded : Recorded s.rest.epoch s.rest := h.recorded
  refine ⟨fun id => ?_, hrecorded.told, fun emit hemit link index payload => ⟨?_, fun hsettles => ?_⟩,
    hrecorded.keyed.nodup, fun id q => hrecorded.keyed.market_of_last?⟩
  · rw [← hrecorded.last id]
    rfl
  · exact hemit.report_frame (sound_of_seen (.between h.reached)).toTied link index payload
  · exact Client.settles_perform hsettles _

namespace ScriptedLinks

/-- A price has come over a link that was closed after it. A second link is open, and both have brought
the next price. -/
def retoldRun : Stage Unit (World ScriptedLinks) :=
  played false { moves := [.opens] } {} quietly [.connect,
    .report 0 0 (.frame (octets "\x7b\"type\":\"price_update\",\"marketId\":\"A\"\x7d")), .report 0 0 .closed, .connect,
    .report 0 0 (.frame movedFrame), .report 1 0 (.frame movedFrame)]

theorem retoldRun_recorded :
    (Client.last? (octets "A")).outcome retoldRun = some (.ok (some movedQuote), retoldRun) ∧
      (quotesTold retoldRun.rest.history).length = 2 := by
  have h : Watched (conduct false) (fun _ => True) retoldRun :=
    watched_played (conduct_blank (by decide) rfl (by decide)) consumer_quietly fun _ _ => trivial
  have hlast : lastTold? (octets "A") retoldRun.rest.history = some movedQuote := by decide +kernel
  exact ⟨hlast ▸ (quotes_recorded h).1 _, by decide +kernel⟩

end ScriptedLinks

end QuoteFeed
