import QuoteFeed.Proofs.Attempts
import QuoteFeed.Proofs.LastQuotes
import QuoteFeed.Proofs.Reentry

/-!
What becomes of a frame while consumers only observe: it is counted, and then it is either refused
or carries one message, which is published. Nothing else about the client is touched but the quotes
by a price and the heartbeat by an acknowledgement.
-/

namespace QuoteFeed

variable {β τ : Type} {net : Network τ} {c : Conduct net} {may : Use → Prop}

/-- Nothing happens inside but some deeds, in this order. -/
structure Merely (deeds : List Deed) (w v : World τ) : Prop where
  client : v.client = w.client
  clock : v.clock = w.clock
  history : ∃ added, v.history = added ++ w.history ∧ added.map Moment.deed = deeds.reverse

section

variable {w v u : World τ} {deeds more : List Deed}

theorem Merely.refl : Merely [] w w := ⟨rfl, rfl, [], rfl, rfl⟩

theorem Merely.trans (h : Merely deeds w v) (h' : Merely more v u) : Merely (deeds ++ more) w u := by
  obtain ⟨added, hadded, hdeeds⟩ := h.history
  obtain ⟨later, hlater, hmore⟩ := h'.history
  refine ⟨h'.client.trans h.client, h'.clock.trans h.clock, later ++ added, ?_, ?_⟩
  · rw [hlater, hadded, List.append_assoc]
  · rw [List.map_append, hdeeds, hmore, List.reverse_append]

theorem Merely.of_sameInside {d : Deed} (h : SameInside (w.noted d) v) : Merely [d] w v :=
  ⟨h.client, h.clock, [⟨w.client, w.clock, d⟩], h.history, rfl⟩

end

/-- The events that signals are told by, the gap before the move. -/
def Signals.events (signals : Signals) : List Event :=
  signals.stale.toList.map .stalePrice ++ signals.move.toList.map .significantMove

/-- What a frame turns out to be: it is refused for some reason, or carries a message. -/
abbrev Fate := Except Octets Message

namespace Fate

/-- What a frame that arrives at some time turns out to be. -/
def ofFrame (arrival : Instant) (payload : Octets) : Fate :=
  (Message.ofFrame arrival payload).mapError fun e => e.message.untilNul

/-- What a client does about a frame, in order. -/
def deeds (board : PriceBoard) (payload : Octets) : Fate → List Deed
  | .error text => [.measures (octets "parse_error") (.ofInt 1), .publishes (.parseError text payload)]
  | .ok (.price q) => (board.update q).1.events.map .publishes ++ [.publishes (.price q)]
  | .ok (.orderBook b) => [.publishes (.orderBook b)]
  | .ok (.trade t) => [.publishes (.trade t)]
  | .ok .heartbeat => []
  | .ok (.unknown type raw) =>
    [.measures (octets "unknown_message") (.ofInt 1), .publishes (.unknownMessage type raw)]

/-- What is told of a frame at last. -/
def news? (payload : Octets) : Fate → Option Event
  | .error text => some (.parseError text payload)
  | .ok (.price q) => some (.price q)
  | .ok (.orderBook b) => some (.orderBook b)
  | .ok (.trade t) => some (.trade t)
  | .ok .heartbeat => none
  | .ok (.unknown type raw) => some (.unknownMessage type raw)

theorem getLast?_deeds (board : PriceBoard) (payload : Octets) (fate : Fate) :
    (fate.deeds board payload).getLast? = (fate.news? payload).map .publishes := by
  rcases fate with text | m
  · rfl
  · cases m with
    | price q => exact List.getLast?_concat
    | _ => rfl

theorem news?_inj {payload : Octets} {fate other : Fate} (h : fate.news? payload = other.news? payload) :
    fate = other := by
  rcases fate with text | m <;> rcases other with text' | m'
  · simpa [news?] using h
  · cases m' <;> simp [news?] at h
  · cases m <;> simp [news?] at h
  · cases m <;> cases m' <;> simp_all [news?]

/-- What a client does about a frame tells what the frame was. -/
theorem deeds_inj {board : PriceBoard} {payload : Octets} {fate other : Fate}
    (h : fate.deeds board payload = other.deeds board payload) : fate = other := by
  have hlast : (fate.news? payload).map Deed.publishes = (other.news? payload).map Deed.publishes := by
    rw [← getLast?_deeds board, ← getLast?_deeds board, h]
  exact news?_inj (Option.map_injective (fun _ _ => Deed.publishes.inj) hlast)

/-- What a frame makes of a client and its clock. -/
def apply (w : World τ) : Fate → World τ
  | .ok (.price q) => w.quoted q
  | .ok .heartbeat => w.paced Heartbeat.refresh
  | _ => w

end Fate

/-- What a frame makes of a client does not depend on what has been done before. -/
theorem Merely.applied {w v : World τ} {deeds : List Deed} (h : Merely deeds w v) (fate : Fate) :
    Merely deeds (fate.apply w) (fate.apply v) := by
  obtain ⟨hclient, hclock, hhistory⟩ := h
  rcases fate with text | m
  · exact ⟨hclient, hclock, hhistory⟩
  · cases m with
    | price q => exact ⟨by simp only [Fate.apply, World.quoted, hclient], hclock, hhistory⟩
    | heartbeat =>
      refine ⟨?_, ?_, hhistory⟩
      · simp only [Fate.apply, World.paced, hclient, hclock]
      · simp only [Fate.apply, World.paced, hclient, hclock]
    | orderBook | trade | unknown => exact ⟨hclient, hclock, hhistory⟩

variable {emit : Event → Step (Stage β (World τ)) Unit} {s : Stage β (World τ)} {E : Failure → Stage β (World τ) → Prop}

namespace Observed

theorem tell_merely (h : Observed c emit) (e : Event) :
    (Client.tell emit e).Ends s (fun _ t => Merely [.publishes e] s.rest t.rest) E :=
  h.tell.mono (fun _ _ ht => .of_sameInside ht.toSameInside) fun _ _ he => he

/-- One thing is told after some deeds. -/
theorem tell_then (h : Observed c emit) (e : Event) {w : World τ} {deeds : List Deed} (hs : Merely deeds w s.rest) :
    (Client.tell emit e).Ends s (fun _ t => Merely (deeds ++ [.publishes e]) w t.rest) E :=
  (h.tell_merely e).mono (fun _ _ ht => hs.trans ht) fun _ _ he => he

theorem receiveQuote (h : Observed c emit) (q : Quote) :
    (Client.receiveQuote emit q).Ends s
      (fun _ t => Merely ((s.rest.client.board.update q).1.events.map .publishes ++ [.publishes (.price q)])
        (s.rest.quoted q) t.rest) E := by
  simp only [Client.receiveQuote, Step.ends_bind, Client.ends_current]
  unfold World.quoted
  rcases s.rest.client.board.update q with ⟨⟨stale, move⟩, board⟩
  simp only [Client.ends_change]
  rcases stale with _ | stale <;> rcases move with _ | move <;> simp only [Step.ends_bind]
  · exact h.tell_merely _
  · exact (h.tell_merely _).mono (fun _ _ ht => h.tell_then _ ht) fun _ _ he => he
  · exact (h.tell_merely _).mono (fun _ _ ht => h.tell_then _ ht) fun _ _ he => he
  · refine (h.tell_merely _).mono (fun _ _ ht => ?_) fun _ _ he => he
    exact (h.tell_then _ ht).mono (fun _ _ hu => h.tell_then _ hu) fun _ _ he => he

theorem measure_merely (name : Octets) (value : Binary64) :
    (Client.measure net name value).Ends s (fun _ t => Merely [.measures name value] s.rest t.rest) E := by
  refine Client.measure_ends.mono ?_ fun _ _ he => he
  intro _ t ht
  rw [ht]
  exact .of_sameInside ⟨rfl, rfl, rfl⟩

theorem receiveMessage (h : Observed c emit) (payload : Octets) (m : Message) :
    (Client.receiveMessage net emit m).Ends s (fun _ t =>
      Merely (Fate.deeds s.rest.client.board payload (.ok m)) (Fate.apply s.rest (.ok m)) t.rest) E := by
  cases m with
  | price q => exact h.receiveQuote q
  | orderBook b => exact h.tell_merely _
  | trade t => exact h.tell_merely _
  | heartbeat =>
    simp only [Client.receiveMessage, Client.ends_changeHeartbeat]
    exact .refl
  | unknown type raw =>
    simp only [Client.receiveMessage, Step.ends_bind]
    exact (measure_merely _ _).mono (fun _ _ ht => h.tell_then _ ht) fun _ _ he => he

theorem receiveFrame (h : Observed c emit) (payload : Octets) :
    (Client.receiveFrame net emit payload).Ends s (fun _ t =>
      let fate := Fate.ofFrame (s.rest.epoch.after s.rest.clock.now) payload
      Merely (.measures (octets "frame_bytes") (.ofInt payload.length) :: fate.deeds s.rest.client.board payload)
        (fate.apply s.rest) t.rest) E := by
  simp only [Client.receiveFrame, Step.ends_bind, Client.ends_wallClock]
  refine ((measure_merely _ _).and (Client.measure_ends (E := E))).mono ?_ fun _ _ he => he.1
  rintro _ t ⟨hmerely, ht⟩
  have harrival : t.rest.epoch.after t.rest.clock.now = s.rest.epoch.after s.rest.clock.now := by rw [ht]; rfl
  have hboard : t.rest.client.board = s.rest.client.board := congrArg Client.board hmerely.client
  rw [harrival]
  unfold Fate.ofFrame
  cases Message.ofFrame (s.rest.epoch.after s.rest.clock.now) payload with
  | ok m =>
    refine (h.receiveMessage payload m).mono ?_ fun _ _ he => he
    intro _ u hu
    rw [hboard] at hu
    exact (hmerely.applied _).trans hu
  | error e =>
    simp only [Step.ends_bind]
    refine (measure_merely _ _).mono (fun _ _ hu => ?_) fun _ _ he => he
    exact h.tell_then _ (hmerely.trans hu)

end Observed

/-- What a frame changes of a client, and what it leaves: a price takes the place of the last one of
its instrument, and an acknowledgement puts the next ping off if pings are due. -/
structure Amends (fate : Fate) (w v : World τ) : Prop where
  priced : ∀ q, fate = .ok (.price q) → ∀ id, v.client.board.last? id =
    if id = q.market then some q else w.client.board.last? id
  unpriced : (∀ q, fate ≠ .ok (.price q)) → v.client.board = w.client.board
  acknowledged : fate = .ok .heartbeat → w.client.heartbeat.running = true →
    (v.client.heartbeat, v.clock) = w.client.heartbeat.arm w.clock
  unacknowledged : ¬(fate = .ok .heartbeat ∧ w.client.heartbeat.running = true) →
    v.client.heartbeat = w.client.heartbeat ∧ v.clock = w.clock
  kept : v.client = { w.client with board := v.client.board, heartbeat := v.client.heartbeat }
  waits : v.clock.waitsFor .reconnect = w.clock.waitsFor .reconnect

/-- A frame has been received that turned out to be what is said, and nothing else has happened: it
was counted by its length and dealt with. -/
structure Undergoes (payload : Octets) (fate : Fate) (w v : World τ) : Prop extends Amends fate w v where
  deeds : ∃ added, v.history = added ++ w.history ∧ added.map Moment.deed =
    (.hears (.frame payload) :: .measures (octets "frame_bytes") (.ofInt payload.length) ::
      fate.deeds w.client.board payload).reverse

section

variable {payload : Octets} {fate other : Fate} {w v : World τ}

theorem Undergoes.unique (h : Undergoes payload fate w v) (h' : Undergoes payload other w v) : fate = other := by
  obtain ⟨added, hadded, hdeeds⟩ := h.deeds
  obtain ⟨added', hadded', hdeeds'⟩ := h'.deeds
  obtain rfl : added = added' := List.append_cancel_right (hadded.symm.trans hadded')
  have hreversed := List.reverse_inj.mp (hdeeds.symm.trans hdeeds')
  simp only [List.cons.injEq, true_and] at hreversed
  exact Fate.deeds_inj hreversed

end

namespace ScriptedLinks

/-- A link is open over which one price has come. -/
def quotedRun : Stage Unit (World ScriptedLinks) :=
  played false { moves := [.opens] } {} quietly [.connect,
    .report 0 0 (.frame (octets "\x7b\"type\":\"price_update\",\"marketId\":\"A\"\x7d"))]

/-- The price of the same instrument has moved by more than the limit. -/
def movedFrame : Octets := octets
  "\x7b\"type\":\"price_update\",\"marketId\":\"A\",\"price\":2,\"changePercent\":\"9\"\x7d"

def movedQuote : Quote where
  market := octets "A"
  price := .ofInt 2
  time := default
  volume := .zero false
  change := .ofInt 9

end ScriptedLinks

end QuoteFeed
