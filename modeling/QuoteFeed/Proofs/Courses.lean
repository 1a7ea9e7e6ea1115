import QuoteFeed.Proofs.Attempts
import Mathlib.Logic.Relation

/-!
The course of a client that is only observed: whatever is done with it takes it from turn to turn, and
each turn is one of a few. A law of such a client has to be kept by these only.
-/

namespace QuoteFeed

variable {β τ : Type} {net : Network τ} {c : Conduct net} {may : Use → Prop}

/-- The client has a link or is about to have one. -/
def Phase.Linked (p : Phase) : Prop := p = .connecting ∨ p = .connected

namespace Deed

/-- Deeds by which a client with a link gets nowhere else. -/
def IsRoutine : Deed → Prop
  | connects | replays _ | sends .. => True
  | hears r => r ≠ .closed
  | measures name _ => name ≠ octets "reconnect_delay_ms"
  | publishes e => e.kind ≠ .connected ∧ e.kind ≠ .disconnected
  | disconnects | asks | dials _ | closes _ => False

end Deed

/-- In the second world some instruments have been asked for since the first one, and nothing else has
happened. -/
structure Replayed (w v : World τ) : Prop where
  client : v.client = w.client
  clock : v.clock = w.clock
  history : ∃ added, v.history = added ++ w.history ∧ ∀ m ∈ added, m.client = w.client ∧ m.deed.IsRoutine

section

variable {w v u : World τ}

theorem Replayed.refl : Replayed w w := ⟨rfl, rfl, [], rfl, by simp⟩

theorem Replayed.note (h : Replayed w v) {d : Deed} (hd : d.IsRoutine) : Replayed w (v.noted d) where
  client := h.client
  clock := h.clock
  history := by
    obtain ⟨added, hadded, hroutine⟩ := h.history
    refine ⟨⟨v.client, v.clock, d⟩ :: added, congrArg _ hadded, ?_⟩
    intro m hm
    rcases List.mem_cons.mp hm with rfl | hin
    · exact ⟨h.client, hd⟩
    · exact hroutine m hin

theorem Replayed.stirred (h : Replayed w v) (hs : SameInside v u) : Replayed w u where
  client := hs.client.trans h.client
  clock := hs.clock.trans h.clock
  history := by
    rw [hs.history]
    exact h.history

theorem Replayed.sent (h : Replayed w v) {frame : Octets} : Replayed w (v.sent net frame) := by
  cases hl : v.client.link with
  | none =>
    rw [World.sent_of_none hl]
    exact h
  | some link =>
    have hnoted : Replayed w (v.noted (.sends link frame)) := h.note trivial
    exact hnoted.stirred ⟨World.sent_client, World.sent_clock, World.sent_history hl⟩

end

namespace World

variable (net : Network τ) (w : World τ)

/-- The client is disconnected, and tells so if it was connected. -/
def dismissed : World τ :=
  if w.client.phase = .connected then (w.disconnected net).noted (.publishes (.disconnected true true))
  else w.disconnected net

/-- The current link has closed. -/
def lost : World τ := ((w.noted (.hears .closed)).closed net).parted net (w.client.phase = .connected)

/-- An attempt that still waits for its link has failed. -/
def failed (text : Octets) : World τ :=
  ((w.noted (.publishes (.error (octets "connect failed: " ++ text)))).abandoned net).parted net false

end World

/-- Nothing has been done that is remembered, and the client is where it was. Only instruments that may be
asked for are wanted in addition. -/
structure Still (may : Use → Prop) (w v : World τ) : Prop where
  history : v.history = w.history
  phase : v.client.phase = w.client.phase
  ids : ∀ id ∈ v.client.watchlist.ids, id ∈ w.client.watchlist.ids ∨ may (.subscribe id)

/-- One turn of a client by itself. -/
inductive Turn (net : Network τ) (may : Use → Prop) (w : World τ) : World τ → Prop
  | still {v : World τ} : Still may w v → Turn net may w v
  /-- Something routine is done over the link. -/
  | note {d : Deed} : w.client.phase.Linked → d.IsRoutine → (d = .hears .opened → w.client.phase ≠ .connecting) →
      Turn net may w (w.noted d)
  /-- An attempt has failed that no longer waits for its link. -/
  | complain (text : Octets) : w.client.phase ≠ .connecting →
      Turn net may w (w.noted (.publishes (.error (octets "connect failed: " ++ text))))
  | call : may .connect → w.client.phase = .idle ∨ w.client.phase = .disconnected →
      Turn net may w (World.dialed net { w.noted .connects with client.backoff := w.client.backoff.reset })
  | hurry : may .connect → w.client.phase = .reconnectScheduled →
      Turn net may w ((w.noted .connects).cancelled.dialed net)
  | due {u : World τ} {v : Wait} : Lapses w v u → w.client.phase = .reconnectScheduled → Turn net may w (u.dialed net)
  | fail (text : Octets) : w.client.phase = .connecting → Turn net may w (w.failed net text)
  | lose : w.client.phase.Linked → Turn net may w (w.lost net)
  | dismiss : may .disconnect → (∀ link, w.client.link = some link → w.client.phase.Linked) →
      Turn net may w (w.dismissed net)
  | open {v : World τ} : w.client.phase = .connecting → Replayed (w.noted (.hears .opened)).opened v →
      Turn net may w (v.started.noted (.publishes (.connected v.client.endpoint.url)))
  | openUnwritten {e : Json.Error} : w.client.phase = .connecting → w.client.watchlist.replayFrames = .error e →
      Turn net may w (w.noted (.hears .opened)).opened

theorem SameInside.still {w v : World τ} (h : SameInside w v) : Still may w v where
  history := h.history
  phase := congrArg Client.phase h.client
  ids id hid := by
    rw [h.client] at hid
    exact .inl hid

theorem Lapses.still {w u : World τ} {v : Wait} (h : Lapses w v u) : Still may w u where
  history := h.history_eq
  phase := congrArg Client.phase h.client_eq
  ids id hid := by
    rw [h.client_eq] at hid
    exact .inl hid

theorem World.still_paced {w : World τ} {f : Heartbeat → Clock → Heartbeat × Clock} : Still may w (w.paced f) :=
  ⟨rfl, rfl, fun _ => .inl⟩

/-- One turn after another. -/
abbrev Course (net : Network τ) (may : Use → Prop) : World τ → World τ → Prop := Relation.ReflTransGen (Turn net may)

namespace Course

variable {w v u : World τ}

theorem next (h : Course net may w v) (hturn : Turn net may v u) : Course net may w u := h.tail hturn

theorem stirred (h : Course net may w v) (hs : SameInside v u) : Course net may w u := h.next (.still hs.still)

end Course

/-- The course has come to where the client has a link or is about to have one. -/
structure Engaged (net : Network τ) (may : Use → Prop) (w v : World τ) : Prop where
  course : Course net may w v
  linked : v.client.phase.Linked

section

variable {emit : Event → Step (Stage β (World τ)) Unit} {s : Stage β (World τ)} {w v : World τ}
  {E : Failure → Stage β (World τ) → Prop}

theorem Engaged.stirred {u : World τ} (h : Engaged net may w v) (hs : SameInside v u) : Engaged net may w u := by
  refine ⟨h.course.stirred hs, ?_⟩
  rw [hs.client]
  exact h.linked

theorem Engaged.note {d : Deed} (h : Engaged net may w v) (hd : d.IsRoutine) (ho : d ≠ .hears .opened) :
    Engaged net may w (v.noted d) where
  course := h.course.next (.note h.linked hd fun he => absurd he ho)
  linked := h.linked

theorem Course.sent (h : Course net may w v) (hv : Sound c v) {frame : Octets} :
    Course net may w (v.sent net frame) := by
  cases hl : v.client.link with
  | none =>
    rw [World.sent_of_none hl]
    exact h
  | some link =>
    have he : Engaged net may w v := ⟨h, hv.linked link hl⟩
    have hnoted : Engaged net may w (v.noted (.sends link frame)) := he.note trivial Deed.noConfusion
    exact hnoted.course.stirred ⟨World.sent_client, World.sent_clock, World.sent_history hl⟩

namespace Observed

theorem tell_course (h : Observed c emit) {e : Event} (hs : Course net may w (s.rest.noted (.publishes e))) :
    (Client.tell emit e).Ends s (fun _ t => Course net may w t.rest) E :=
  h.tell.mono (fun _ _ ht => hs.stirred ht.toSameInside) fun _ _ he => he

theorem tell_engaged (h : Observed c emit) {e : Event} (hs : Engaged net may w s.rest)
    (he : e.kind ≠ .connected ∧ e.kind ≠ .disconnected) :
    (Client.tell emit e).Ends s (fun _ t => Engaged net may w t.rest) E :=
  h.tell.mono (fun _ _ ht => (hs.note (d := .publishes e) he Deed.noConfusion).stirred ht.toSameInside) fun _ _ he => he

theorem measure_engaged {name : Octets} {value : Binary64} (hname : name ≠ octets "reconnect_delay_ms")
    (hs : Engaged net may w s.rest) :
    (Client.measure net name value).Ends s (fun _ t => Engaged net may w t.rest) E := by
  refine Client.measure_ends.mono ?_ fun _ _ he => he
  intro _ t ht
  have hnoted : Engaged net may w (s.rest.noted (.measures name value)) := hs.note hname Deed.noConfusion
  rw [ht]
  exact hnoted.stirred ⟨rfl, rfl, rfl⟩

theorem send_course (h : Observed c emit) (hsound : Sound c s.rest) (hs : Course net may w s.rest) {frame : Octets} :
    (Client.send net emit frame).Ends s (fun _ t => Course net may w t.rest) E := by
  refine Client.send_ends (Q := fun v => Course net may w v) hsound.fit (fun _ => hs.sent hsound) ?_
  intro link e t hl _ ht
  have hengaged : Engaged net may w t.rest := by
    rw [ht]
    refine ⟨hs.sent hsound, ?_⟩
    rw [World.sent_client]
    exact hsound.linked link hl
  exact (h.tell_engaged hengaged (by simp [Event.kind])).mono (fun _ _ hu => hu.course) fun _ _ he => he

theorem sendWritten_course (h : Observed c emit) (hsound : Sound c s.rest) (hs : Course net may w s.rest)
    {frame? : Except Json.Error Octets} :
    (Client.sendWritten net emit frame?).Ends s (fun _ t => Course net may w t.rest) fun _ t =>
      Course net may w t.rest := by
  cases frame? with
  | ok frame =>
    simp only [Client.sendWritten, Except.mapError, Step.ofExcept, Step.ends_bind, Step.ends_pure]
    exact h.send_course hsound hs
  | error j =>
    simp only [Client.sendWritten, Except.mapError, Step.ofExcept, Step.ends_bind, Step.ends_throw]
    exact hs

theorem receiveQuote_engaged (h : Observed c emit) (hs : Engaged net may w s.rest) (q : Quote) :
    (Client.receiveQuote emit q).Ends s (fun _ t => Engaged net may w t.rest) E := by
  have hq : Engaged net may w (s.rest.quoted q) := ⟨hs.course.next (.still ⟨rfl, rfl, fun _ => .inl⟩), hs.linked⟩
  have hmove : ∀ {t : Stage β (World τ)} (m : MoveSignal), Engaged net may w t.rest →
      (Client.tell emit (.significantMove m)).Ends t
        (fun _ u => (Client.tell emit (.price q)).Ends u (fun _ v => Engaged net may w v.rest) E) E :=
    fun m ht => (h.tell_engaged ht (by simp [Event.kind])).mono
      (fun _ _ hu => h.tell_engaged hu (by simp [Event.kind])) fun _ _ he => he
  unfold World.quoted at hq
  simp only [Client.receiveQuote, Step.ends_bind, Client.ends_current]
  rcases hu : s.rest.client.board.update q with ⟨signals, board⟩
  rw [hu] at hq
  simp only [Client.ends_change]
  rcases signals with ⟨_ | stale, _ | move⟩ <;> simp only [Step.ends_bind]
  · exact h.tell_engaged hq (by simp [Event.kind])
  · exact hmove move hq
  · exact (h.tell_engaged (w := w) hq (by simp [Event.kind])).mono
      (fun _ _ ht => h.tell_engaged ht (by simp [Event.kind])) fun _ _ he => he
  · exact (h.tell_engaged (w := w) hq (by simp [Event.kind])).mono (fun _ _ ht => hmove move ht)
      fun _ _ he => he

theorem receiveMessage_engaged (h : Observed c emit) (hs : Engaged net may w s.rest) (m : Message) :
    (Client.receiveMessage net emit m).Ends s (fun _ t => Engaged net may w t.rest) E := by
  cases m with
  | price q => exact h.receiveQuote_engaged hs q
  | orderBook b => exact h.tell_engaged hs (by simp [Event.kind])
  | trade t => exact h.tell_engaged hs (by simp [Event.kind])
  | heartbeat =>
    simp only [Client.receiveMessage, Client.ends_changeHeartbeat]
    exact ⟨hs.course.next (.still World.still_paced), hs.linked⟩
  | unknown type raw =>
    simp only [Client.receiveMessage, Step.ends_bind]
    refine (measure_engaged (by decide) hs).mono (fun _ _ ht => ?_) fun _ _ he => he
    exact h.tell_engaged ht (by simp [Event.kind])

theorem receiveFrame_engaged (h : Observed c emit) (hs : Engaged net may w s.rest) (payload : Octets) :
    (Client.receiveFrame net emit payload).Ends s (fun _ t => Engaged net may w t.rest) E := by
  simp only [Client.receiveFrame, Step.ends_bind]
  refine (measure_engaged (by decide) hs).mono ?_ fun _ _ he => he
  intro _ t ht
  simp only [Client.ends_wallClock]
  cases Message.ofFrame (t.rest.epoch.after t.rest.clock.now) payload with
  | ok m => exact h.receiveMessage_engaged ht m
  | error e =>
    simp only [Step.ends_bind]
    refine (measure_engaged (by decide) ht).mono (fun _ _ hu => ?_) fun _ _ he => he
    exact h.tell_engaged hu (by simp [Event.kind])

theorem send_replayed (h : Observed c emit) (hfit : c.fit s.rest.outside) (hs : Replayed w s.rest) {frame : Octets} :
    (Client.send net emit frame).Ends s (fun _ t => c.fit t.rest.outside ∧ Replayed w t.rest) E := by
  refine Client.send_ends (Q := fun u => c.fit u.outside ∧ Replayed w u) hfit
    (fun _ => ⟨alike_sent.fit hfit, hs.sent⟩) ?_
  intro link e t _ _ ht
  refine h.tell.mono ?_ fun _ _ he => he
  intro _ u hu
  have hfit' : c.fit t.rest.outside := ht ▸ alike_sent.fit hfit
  have hsent : Replayed w t.rest := ht ▸ hs.sent
  have hroutine : (Deed.publishes (.error (octets "send failed: " ++ e.message))).IsRoutine := by
    simp [Deed.IsRoutine, Event.kind]
  exact ⟨hu.outside.fit hfit', (hsent.note hroutine).stirred hu.toSameInside⟩

theorem handleOpen_course (h : Observed c emit) (hfit : c.fit v.outside) (hv : Engaged net may w v)
    (hs : s.rest = v.noted (.hears .opened)) :
    (Client.handleOpen net emit).Ends s (fun _ t => Course net may w t.rest) fun _ t => Course net may w t.rest := by
  have hclient : s.rest.client = v.client := by rw [hs]; rfl
  simp only [Client.handleOpen, Step.ends_bind, Client.ends_current, Step.ends_ite, Step.ends_pure, Client.ends_change,
    Client.ends_changeHeartbeat, Step.ends_ofExcept, hclient]
  constructor
  case right =>
    intro hp
    rw [hs]
    exact hv.course.next (.note hv.linked Report.noConfusion fun _ => hp)
  intro hp
  constructor
  · intro frames _
    -- A replay has come to a world in which nothing but instruments have been asked for since the opening.
    refine (Step.ends_forM (P := fun _ t => c.fit t.rest.outside ∧ Replayed (v.noted (.hears .opened)).opened t.rest)
      ?_ ?_).mono ?_ fun _ _ he => he
    · rw [hs]
      exact ⟨hfit, .refl⟩
    · intro frame rest t ht
      simp only [Step.ends_bind, Client.ends_remember]
      exact h.send_replayed (s := { t with rest := t.rest.noted (.replays frame) }) ht.1 (ht.2.note trivial)
    · intro _ t ht
      exact h.tell_course (hv.course.next (.open hp ht.2))
  · intro e he
    rw [hs]
    cases hr : v.client.watchlist.replayFrames with
    | ok fs => simp [Except.mapError, hr] at he
    | error j => exact hv.course.next (.openUnwritten hp hr)

/-- A report to the present attempt is one turn, or some. -/
theorem receive_course (h : Observed c emit) (hsound : Sound c s.rest) (hs : Course net may w s.rest)
    {link attempt : Nat} {r : Report} (ha : attempt ∈ c.attempts link s.rest.outside) :
    (Client.receive net emit attempt r).Ends s (fun _ t => Course net may w t.rest) fun _ t =>
      Course net may w t.rest := by
  simp only [Client.receive, Step.ends_bind, Client.ends_current, Step.ends_ite, Step.ends_pure, Client.ends_remember]
  refine ⟨?_, fun _ => hs⟩
  intro heq
  have hengaged : Engaged net may w s.rest := ⟨hs, hsound.phase_of_current ⟨link, heq ▸ ha⟩⟩
  cases r with
  | opened => exact h.handleOpen_course hsound.fit hengaged rfl
  | closed =>
    refine h.handleClose.mono ?_ fun _ _ he => he
    exact fun _ t ht => (hs.next (.lose hengaged.linked)).stirred ht
  | error text =>
    have hheard : Engaged net may w (s.rest.noted (.hears (.error text))) := hengaged.note Report.noConfusion (by simp)
    exact (h.tell_engaged (s := { s with rest := s.rest.noted _ }) hheard (by simp [Event.kind])).mono
      (fun _ _ ht => ht.course) fun _ _ he => he
  | frame payload =>
    have hheard : Engaged net may w (s.rest.noted (.hears (.frame payload))) :=
      hengaged.note Report.noConfusion (by simp)
    exact (h.receiveFrame_engaged (s := { s with rest := s.rest.noted _ }) hheard payload).mono
      (fun _ _ ht => ht.course) fun _ _ he => he

theorem receiveFrom_course (h : Observed c emit) (hsound : Sound c s.rest) (hs : Course net may w s.rest)
    {link : Nat} {r : Report} :
    (Client.receiveFrom net emit link r).Ends s (fun _ t => Course net may w t.rest) fun _ t =>
      Course net may w t.rest := by
  simp only [Client.receiveFrom, Step.ends_bind, Step.ends_get]
  cases ha : net.attached? link s.rest.outside with
  | none => exact Step.ends_pure.mpr hs
  | some attempt => exact h.receive_course hsound hs (c.attempts_of_attached ha)

theorem abandon_course (h : Observed c emit) (hsound : Sound c s.rest) (hs : Course net may w s.rest) {attempt : Nat}
    {e : Failure} :
    (Client.abandon net emit attempt e).Ends s (fun _ t => Course net may w t.rest) E := by
  by_cases hp : s.rest.client.phase = .connecting
  · by_cases ha : s.rest.client.attempt = attempt
    · refine (h.abandon hsound.fit ha hp).mono ?_ fun _ _ he => he
      exact fun _ t ht => (hs.next (.fail e.message hp)).stirred ht
    · have hengaged : Engaged net may w s.rest := ⟨hs, .inl hp⟩
      simp only [Client.abandon, Step.ends_bind, Client.ends_current, Step.ends_ite, Step.ends_pure, Client.ends_change]
      refine ((h.tell_engaged hengaged (by simp [Event.kind])).and (h.tell (E := E))).mono ?_ fun _ _ he => he.1
      rintro _ t ⟨ht, htold⟩
      exact ⟨fun hn => absurd ((congrArg Client.attempt htold.client).symm.trans hn.1) ha, fun _ => ht.course⟩
  · refine (h.abandon_late hp).mono ?_ fun _ _ he => he
    exact fun _ t ht => (hs.next (.complain e.message hp)).stirred ht

/-- Once a link has been asked for, the reports that it gives while it is started are turns. -/
theorem dial_course (h : Observed c emit) (hheeds : (soundness c may).Heeds emit) {b v : World τ} (hb : Sound c b)
    (hr : Ready b v) (hv : Course net may w (v.dialed net))
    (hs : s.rest = { v with client := { v.client with phase := .connecting, attempt := v.client.attempt + 1 } }) :
    (Client.dial net emit s.rest.client.attempt).Ends s (fun _ t => Course net may w t.rest) fun _ t =>
      Course net may w t.rest := by
  have ho : s.rest.outside = v.outside := by rw [hs]
  have hsound : Sound c (v.dialed net) := hb.dialed hr
  simp only [Client.dial, Step.ends_bind, Client.ends_outside, Step.ends_ofExcept, ho]
  constructor
  · intro link? hl
    cases link? with
    | none =>
      simp only [Step.ends_throw]
      simpa [World.dialed, World.asked, World.affected, World.noted, hl, hs] using hv
    | some link =>
      simp only [Step.ends_bind, Client.ends_change, Client.ends_changeOutside, Client.ends_current,
        Client.ends_outside, Step.ends_raise]
      refine (Step.ends_forM (P := fun _ t => Sound c t.rest ∧ Course net may w t.rest) ?_ ?_).mono ?_ fun _ _ he => he
      · rw [World.dialed_of_link hl] at hsound hv
        rw [hs]
        exact ⟨hsound, hv⟩
      · intro r _ t ht
        refine ((hheeds.receiveFrom (Discipline.Keeps.refl ht.1)).and (h.receiveFrom_course ht.1 ht.2)).mono ?_ ?_
        · exact fun _ u hu => ⟨hu.1.1, hu.2⟩
        · exact fun _ _ hu => hu.2
      · exact fun _ t ht => ⟨fun _ => ht.2, fun _ _ => ht.2⟩
  · intro e he
    simpa [World.dialed, World.asked, World.affected, World.noted, he, hs] using hv

theorem startAttempt_course (h : Observed c emit) (hheeds : (soundness c may).Heeds emit) {b : World τ}
    (hb : Sound c b) (hr : Ready b s.rest) (hs : Course net may w (s.rest.dialed net)) :
    (Client.startAttempt net emit).Ends s (fun _ t => Course net may w t.rest) E := by
  simp only [Client.startAttempt, Step.ends_bind, Client.ends_change, Client.ends_current, Step.ends_recover]
  let t : Stage β (World τ) :=
    { s with rest.client := { s.rest.client with phase := .connecting, attempt := s.rest.client.attempt + 1 } }
  refine ((hheeds.dial (s := t) hb hr rfl).and (h.dial_course (s := t) hheeds hb hr hs rfl)).mono ?_ ?_
  · exact fun _ _ hu => hu.2
  · rintro e u ⟨⟨he, hu⟩, hcourse⟩
    exact ⟨fun _ => h.abandon_course hu.1 hcourse, fun hn => absurd he hn⟩

theorem connect_course (h : Observed c emit) (hheeds : (soundness c may).Heeds emit) (hmay : may .connect)
    (hsound : Sound c s.rest) (hs : Course net may w s.rest) :
    (Client.connect net emit).Ends s (fun _ t => Course net may w t.rest) E := by
  have hnoted : s.rest.client.phase.Linked → Course net may w (s.rest.noted .connects) := fun hp =>
    hs.next (.note hp trivial Deed.noConfusion)
  have hsound' : Sound c (s.rest.noted .connects) := hsound.noted _
  simp only [Client.connect, Step.ends_bind, Client.ends_remember, Client.ends_current]
  cases hp : (s.rest.noted .connects).client.phase with
  | connecting => exact Step.ends_pure.mpr (hnoted (.inl hp))
  | connected => exact Step.ends_pure.mpr (hnoted (.inr hp))
  | reconnectScheduled =>
    simp only [Step.ends_bind]
    refine Client.cancelReconnect_ends.mono ?_ fun _ _ he => he
    intro _ t ht
    refine h.startAttempt_course hheeds hsound' ?_ ?_
    · rw [ht]
      exact .hurried rfl hp
    · rw [ht]
      exact hs.next (.hurry hmay hp)
  | idle =>
    simp only [Step.ends_bind, Client.ends_change]
    exact h.startAttempt_course hheeds hsound' (.asked rfl (.inl hp)) (hs.next (.call hmay (.inl hp)))
  | disconnected =>
    simp only [Step.ends_bind, Client.ends_change]
    exact h.startAttempt_course hheeds hsound' (.asked rfl (.inr hp)) (hs.next (.call hmay (.inr hp)))

theorem disconnect_course (h : Observed c emit) (hmay : may .disconnect) (hsound : Sound c s.rest)
    (hs : Course net may w s.rest) :
    (Client.disconnect net emit).Ends s (fun _ t => Course net may w t.rest) E := by
  simp only [Client.disconnect, Step.ends_bind, Client.ends_current, Client.ends_change, Client.ends_remember,
    Step.ends_ite, Step.ends_pure]
  refine (Client.halt_ends hsound.fit).mono ?_ fun _ _ he => he
  intro _ t ht
  have hn : Course net may w (s.rest.dismissed net) := hs.next (.dismiss hmay hsound.linked)
  unfold World.dismissed at hn
  rw [ht]
  constructor
  · intro hp
    rw [if_pos hp] at hn
    exact h.tell_course (s := { t with rest := s.rest.disconnected net }) hn
  · intro hp
    rw [if_neg hp] at hn
    exact hn

theorem fire_course (h : Observed c emit) (hheeds : (soundness c may).Heeds emit) {v : Wait} {b : World τ}
    (hb : Sound c b) (hw : Course net may w b) (hl : Lapses b v s.rest) :
    (Client.fire net emit v).Ends s (fun _ t => Course net may w t.rest) E := by
  have hs : Course net may w s.rest := hw.next (.still hl.still)
  simp only [Client.fire, Step.ends_bind, Client.ends_current]
  cases ht : v.timer with
  | heartbeat =>
    simp only [Step.ends_ite, Step.ends_bind, Client.ends_changeHeartbeat, Step.ends_pure]
    refine ⟨fun _ => ?_, fun _ => hs⟩
    have hsound : Sound c s.rest := hb.lapsed_other hl (by simp [ht])
    have hpaced : Course net may w (s.rest.paced Heartbeat.beat) := hs.next (.still World.still_paced)
    simp only [Client.sendWritten, ping_written, Except.mapError, Step.ofExcept, Step.ends_bind, Step.ends_pure]
    have hsound' : Sound c (s.rest.paced Heartbeat.beat) := hsound.paced Heartbeat.steady_beat
    exact h.send_course (s := { s with rest := s.rest.paced Heartbeat.beat }) hsound' hpaced
  | reconnect =>
    simp only [Step.ends_ite, Step.ends_pure, hl.client_eq]
    refine ⟨?_, fun _ => hs⟩
    rintro ⟨hn, hp⟩
    exact h.startAttempt_course hheeds hb (.due hl ht hn hp) (hw.next (.due hl hp))
  | shutdown => exact Step.ends_pure.mpr hs

theorem subscribe_course (h : Observed c emit) {id : Octets} (hmay : may (.subscribe id)) (hsound : Sound c s.rest)
    (hs : Course net may w s.rest) :
    (Client.subscribe net emit id).Ends s (fun _ t => Course net may w t.rest) fun _ t => Course net may w t.rest := by
  simp only [Client.subscribe, Step.ends_bind, Client.ends_current]
  by_cases hm : id ∈ s.rest.client.watchlist.ids
  · simp only [Watchlist.add, hm, dif_pos, Bool.false_eq_true, if_false, Step.ends_pure]
    exact hs
  · have hadd : s.rest.client.watchlist.add id = (true, (s.rest.client.watchlist.add id).2) := by
      simp [Watchlist.add, hm]
    have hwatch : Course net may w (s.rest.watching fun l => (l.add id).2) := by
      refine hs.next (.still ⟨rfl, rfl, fun id' hid => ?_⟩)
      have hid' : id' ∈ (s.rest.client.watchlist.add id).2.ids := hid
      simp only [Watchlist.add, hm, dif_neg, not_false_eq_true, List.mem_append, List.mem_singleton] at hid'
      rcases hid' with hin | rfl
      · exact .inl hin
      · exact .inr hmay
    rw [hadd]
    simp only [if_true, Step.ends_bind, Client.ends_change, Client.ends_current, Step.ends_ite, Step.ends_pure]
    let t : Stage β (World τ) := { s with rest := s.rest.watching fun l => (l.add id).2 }
    have ht : Sound c t.rest := hsound.watching fun l => (l.add id).2
    exact ⟨fun _ => h.sendWritten_course ht hwatch, fun _ => hwatch⟩

theorem unsubscribe_course (h : Observed c emit) {name : Naming} (hsound : Sound c s.rest)
    (hs : Course net may w s.rest) :
    (Client.unsubscribe net emit name).Ends s (fun _ t => Course net may w t.rest) fun _ t =>
      Course net may w t.rest := by
  simp only [Client.unsubscribe, Step.ends_bind, Client.ends_current]
  by_cases hm : name.read s.rest.client.watchlist ∈ s.rest.client.watchlist.ids
  · have hwatch : Course net may w (s.rest.watching fun l => (l.withdraw name).2) :=
      hs.next (.still ⟨rfl, rfl, fun _ hid => .inl (List.mem_of_mem_erase hid)⟩)
    rw [Watchlist.withdraw_of_mem hm]
    simp only [if_true, Step.ends_bind, Client.ends_change, Client.ends_current, Step.ends_ite, Step.ends_pure]
    let t : Stage β (World τ) := { s with rest := s.rest.watching fun l => (l.withdraw name).2 }
    have ht : Sound c t.rest := hsound.watching fun l => (l.withdraw name).2
    exact ⟨fun _ => h.sendWritten_course ht hwatch, fun _ => hwatch⟩
  · simp only [Watchlist.withdraw_of_not_mem hm, Bool.false_eq_true, if_false, Step.ends_pure]
    exact hs

theorem perform_course (h : Observed c emit) (hheeds : (soundness c may).Heeds emit) {op : Use} (hmay : may op)
    (hsound : Sound c s.rest) (hs : Course net may w s.rest) :
    (op.perform c emit).Ends s (fun _ t => Course net may w t.rest) fun _ t => Course net may w t.rest := by
  cases op with
  | connect => exact h.connect_course hheeds hmay hsound hs
  | disconnect => exact h.disconnect_course hmay hsound hs
  | subscribe id => exact h.subscribe_course hmay hsound hs
  | unsubscribe name => exact h.unsubscribe_course hsound hs
  | report link index r =>
    simp only [Use.perform, Step.ends_bind, Step.ends_get]
    cases ha : (c.attempts link s.rest.outside)[index]? with
    | none => exact Step.ends_pure.mpr hs
    | some attempt => exact h.receive_course hsound hs (List.mem_of_getElem? ha)

/-- Programs that use the client go on with its course, with a value or with a failure. -/
theorem uses_course (h : Observed c emit) (hheeds : (soundness c may).Heeds emit) {α : Type}
    {x : Step (Stage β (World τ)) α} (hx : Uses c may emit x) (hs : Sound c s.rest ∧ Course net may w s.rest) :
    x.Ends s (fun _ t => Sound c t.rest ∧ Course net may w t.rest) fun _ t =>
      Sound c t.rest ∧ Course net may w t.rest := by
  refine hx.keeps (P := fun v => Sound c v ∧ Course net may w v) ?_ ?_ ?_ hs
  · exact fun hv ht => ⟨hv.1.stirred ht, hv.2.stirred ⟨rfl, rfl, rfl⟩⟩
  · intro e t ht
    refine (h e t).mono ?_ fun _ _ he => he.elim
    exact fun _ u hu => ⟨hu.sound ht.1, ht.2.stirred hu.toSameInside⟩
  · intro op hmay t ht
    have hkeeps := (hheeds.perform hmay (Discipline.Keeps.refl ht.1)).and (h.perform_course hheeds hmay ht.1 ht.2)
    exact hkeeps.mono (fun _ _ hu => ⟨hu.1.1, hu.2⟩) fun _ _ hu => ⟨hu.1.1.1, hu.2⟩

end Observed

end

end QuoteFeed
