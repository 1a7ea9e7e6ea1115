import QuoteFeed.Proofs.History
import QuoteFeed.Proofs.Observers

/-!
What follows when a link is gone that was not told to go: its end is told, and the next attempt is
planned unless no more are allowed. A link that closes and an attempt that fails come to the same.
-/

namespace QuoteFeed

variable {β τ : Type} {net : Network τ} {c : Conduct net}

namespace World

variable (net : Network τ) (w : World τ)

/-- The next attempt is planned, unless no more are allowed. -/
def replanned : World τ :=
  if w.client.exhausted = true then w.noted (.publishes (.error (octets "reconnect attempts exhausted")))
  else w.planned net

/-- What follows once a link has been given up that was not told to go. -/
def parted (connected : Bool) : World τ := (w.noted (.publishes (.disconnected false connected))).replanned net

end World

/-- Nothing is left of an attempt; the next one is planned, unless no more are allowed. -/
structure Client.GivenUp (client : Client) : Prop where
  phase : client.phase = .reconnectScheduled ∨ (client.phase = .disconnected ∧ client.exhausted = true)
  link : client.link = none
  ticking : client.heartbeat.running = false

/-- The events that have been told, the last one first. -/
def told (history : List Moment) : List Event :=
  history.filterMap fun m => match m.deed with
    | .publishes e => some e
    | _ => none

/-- What is told when a link is gone that was not told to go, the last event first. -/
def Client.farewell (client : Client) (connected : Bool) : List Event :=
  (if client.exhausted = true then [.error (octets "reconnect attempts exhausted")] else []) ++
    [.disconnected false connected]

section

variable {w v : World τ} {connected : Bool}

theorem SameInside.noted (h : SameInside w v) (d : Deed) : SameInside (w.noted d) (v.noted d) where
  client := h.client
  clock := h.clock
  history := by
    unfold World.noted
    rw [h.client, h.clock, h.history]

theorem SameInside.planned (h : SameInside w v) : SameInside (w.planned net) (v.planned net) := by
  obtain ⟨_, _, _, _, _⟩ := w
  obtain ⟨_, _, _, _, _⟩ := v
  obtain ⟨rfl, rfl, rfl⟩ := h
  exact ⟨rfl, rfl, rfl⟩

theorem SameInside.replanned (h : SameInside w v) : SameInside (w.replanned net) (v.replanned net) := by
  unfold World.replanned
  rw [h.client]
  split
  · exact h.noted _
  · exact h.planned

theorem SameInside.parted (h : SameInside w v) : SameInside (w.parted net connected) (v.parted net connected) :=
  (h.noted _).replanned

theorem SameInside.retired (h : SameInside w v) : SameInside (w.retired net) (v.retired net) := by
  obtain ⟨_, _, _, _, _⟩ := w
  obtain ⟨client, _, _, _, _⟩ := v
  obtain ⟨rfl, rfl, rfl⟩ := h
  simp only [World.retired, World.dropped]
  cases client.link <;> exact ⟨rfl, rfl, rfl⟩

theorem SameInside.abandoned (h : SameInside w v) : SameInside (w.abandoned net) (v.abandoned net) := by
  have hr : SameInside (w.retired net) (v.retired net) := h.retired
  exact ⟨congrArg (fun client => { client with phase := .disconnected }) hr.client, hr.clock, hr.history⟩

theorem Client.GivenUp.phase_ne {client : Client} (h : client.GivenUp) :
    client.phase ≠ .connecting ∧ client.phase ≠ .connected := by
  rcases h.phase with hp | ⟨hp, -⟩ <;> simp [hp]

theorem World.givenUp_parted (hp : w.client.phase = .disconnected) (hl : w.client.link = none)
    (hr : w.client.heartbeat.running = false) : (w.parted net connected).client.GivenUp := by
  unfold World.parted World.replanned
  split
  next hx => exact ⟨.inr ⟨hp, hx⟩, hl, hr⟩
  next => exact ⟨.inl rfl, hl, hr⟩

theorem World.parted_heartbeat : (w.parted net connected).client.heartbeat = w.client.heartbeat := by
  unfold World.parted World.replanned
  split <;> rfl

/-- What is planned depends on the client and the clock only. -/
theorem World.planned_eq (hclient : v.client = w.client) (hclock : v.clock = w.clock) :
    (v.planned net).client = (w.planned net).client ∧ (v.planned net).clock = (w.planned net).clock := by
  obtain ⟨_, _, _, _, _⟩ := w
  obtain ⟨_, _, _, _, _⟩ := v
  obtain rfl := hclient
  obtain rfl := hclock
  exact ⟨rfl, rfl⟩

theorem World.parted_eq (hclient : v.client = w.client) (hclock : v.clock = w.clock) :
    (v.parted net connected).client = (w.parted net connected).client ∧
      (v.parted net connected).clock = (w.parted net connected).clock := by
  have hnoted : (v.noted (.publishes (.disconnected false connected))).client =
      (w.noted (.publishes (.disconnected false connected))).client := hclient
  unfold World.parted World.replanned
  rw [hnoted]
  split
  · exact ⟨hclient, hclock⟩
  · exact World.planned_eq hnoted hclock

theorem told_parted :
    told (w.parted net connected).history = w.client.farewell connected ++ told w.history := by
  have hx : (w.noted (.publishes (.disconnected false connected))).client.exhausted = w.client.exhausted := rfl
  unfold World.parted World.replanned Client.farewell
  rw [hx]
  split <;> rfl

theorem World.paced_stop (hr : w.client.heartbeat.running = false) : w.paced Heartbeat.stop = w := by
  simp [paced, Heartbeat.stop, hr]

theorem World.retired_client : (w.retired net).client = (w.dropped net).client := by
  unfold retired dropped
  cases w.client.link <;> rfl

/-- To close and to abandon leave the same client, if there is no heartbeat to be stopped. -/
theorem World.closed_eq_abandoned (d d' : Deed) (hr : w.client.heartbeat.running = false) :
    ((w.noted d).closed net).client = ((w.noted d').abandoned net).client ∧
      ((w.noted d).closed net).clock = ((w.noted d').abandoned net).clock := by
  have hstop : (w.noted d).paced Heartbeat.stop = w.noted d := World.paced_stop hr
  have hdropped : ((w.noted d).dropped net).client = ((w.noted d').retired net).client := by
    rw [World.retired_client]
    unfold World.dropped
    cases hl : w.client.link with
    | none => simp only [World.noted, hl]
    | some link => simp only [World.noted, hl]
  unfold World.closed World.abandoned
  rw [hstop]
  refine ⟨congrArg (fun client => { client with phase := .disconnected }) hdropped, ?_⟩
  exact World.dropped_clock.trans (World.retired_clock (w := w.noted d')).symm

theorem told_closed : told ((w.noted (.hears .closed)).closed net).history = told w.history := by
  have hh : ((w.noted (.hears .closed)).closed net).history = (w.noted (.hears .closed)).history :=
    World.dropped_history
  rw [hh]
  rfl

theorem told_abandoned {link : Nat} (hl : w.client.link = some link) (event : Event) :
    told ((w.noted (.publishes event)).abandoned net).history = event :: told w.history := by
  have hh : ((w.noted (.publishes event)).abandoned net).history = _ := World.retired_history hl
  rw [hh]
  rfl

end

variable {emit : Event → Step (Stage β (World τ)) Unit} {s : Stage β (World τ)} {E : Failure → Stage β (World τ) → Prop}

namespace Observed

theorem scheduleReconnect (h : Observed c emit) (hp : s.rest.client.phase = .disconnected) :
    (Client.scheduleReconnect net emit).Ends s (fun _ t => SameInside (s.rest.replanned net) t.rest) E := by
  simp only [Client.scheduleReconnect, Step.ends_bind, Client.ends_current, Step.ends_ite, Step.ends_pure,
    Client.ends_change]
  refine ⟨fun _ => ⟨?_, ?_⟩, fun hn => absurd hp hn⟩
  · intro hx
    rw [World.replanned, if_pos hx]
    exact h.tell.mono (fun _ _ ht => ht.toSameInside) fun _ _ he => he
  · intro hx
    rw [World.replanned, if_neg hx]
    refine Client.measure_ends.mono ?_ fun _ _ he => he
    intro _ t ht
    simp only [Client.ends_changeClock]
    rw [ht]
    exact ⟨rfl, rfl, rfl⟩

/-- The end of a link is told, and the next attempt is planned. -/
theorem part (h : Observed c emit) {connected : Bool} (hp : s.rest.client.phase = .disconnected) :
    (do
      Client.tell emit (.disconnected false connected)
      Client.scheduleReconnect net emit).Ends s (fun _ t => SameInside (s.rest.parted net connected) t.rest) E := by
  rw [Step.ends_bind]
  refine h.tell.mono ?_ fun _ _ he => he
  intro _ t ht
  refine (h.scheduleReconnect (ht.client ▸ hp)).mono ?_ fun _ _ he => he
  exact fun _ u hu => ht.toSameInside.replanned.trans hu

theorem handleClose (h : Observed c emit) :
    (Client.handleClose net emit).Ends s (fun _ t =>
      SameInside ((s.rest.closed net).parted net (s.rest.client.phase = .connected)) t.rest) E := by
  simp only [Client.handleClose, Step.ends_bind, Client.ends_current, Client.ends_changeHeartbeat, Client.ends_change]
  refine Client.drop_ends.mono ?_ fun _ _ he => he
  intro _ t ht
  let u : Stage β (World τ) := { t with rest.client := { t.rest.client with phase := .disconnected } }
  have hu : u.rest = s.rest.closed net := by
    simp only [u, ht]
    rfl
  rw [← hu]
  exact Step.ends_bind.mp (h.part (s := u) rfl)

theorem handleClose_givenUp (h : Observed c emit) :
    (Client.handleClose net emit).Ends s (fun _ t => t.rest.client.GivenUp) E := by
  refine h.handleClose.mono ?_ fun _ _ he => he
  intro _ t ht
  rw [ht.client]
  exact World.givenUp_parted rfl World.dropped_link World.closed_running

/-- An attempt that still waits for its link is undone when it fails. -/
theorem abandon (h : Observed c emit) {attempt : Nat} {e : Failure} (hfit : c.fit s.rest.outside)
    (ha : s.rest.client.attempt = attempt) (hp : s.rest.client.phase = .connecting) :
    (Client.abandon net emit attempt e).Ends s (fun _ t => SameInside
      (((s.rest.noted (.publishes (.error (octets "connect failed: " ++ e.message)))).abandoned net).parted net false)
      t.rest) E := by
  simp only [Client.abandon, Step.ends_bind, Client.ends_current, Step.ends_ite, Step.ends_pure, Client.ends_change]
  refine h.tell.mono ?_ fun _ _ he => he
  intro _ t ht
  refine ⟨fun _ => ?_, fun hn => absurd ⟨ht.client ▸ ha, ht.client ▸ hp⟩ hn⟩
  refine (Client.retire_ends (ht.outside.fit hfit)).mono ?_ fun _ _ he => he
  intro _ u hu
  let v : Stage β (World τ) := { u with rest.client := { u.rest.client with phase := .disconnected } }
  have hv : v.rest = t.rest.abandoned net := by
    simp only [v, hu]
    rfl
  refine Step.ends_bind.mp ((h.part (s := v) rfl).mono ?_ fun _ _ he => he)
  intro _ x hx
  rw [hv] at hx
  exact ht.toSameInside.abandoned.parted.trans hx

/-- Of an attempt that no longer waits for its link nothing is undone. -/
theorem abandon_late (h : Observed c emit) {attempt : Nat} {e : Failure} (hp : s.rest.client.phase ≠ .connecting) :
    (Client.abandon net emit attempt e).Ends s (fun _ t =>
      SameInside (s.rest.noted (.publishes (.error (octets "connect failed: " ++ e.message)))) t.rest) E := by
  simp only [Client.abandon, Step.ends_bind, Client.ends_current, Step.ends_ite, Step.ends_pure, Client.ends_change]
  refine h.tell.mono ?_ fun _ _ he => he
  intro _ t ht
  exact ⟨fun hc => absurd (ht.client ▸ hc.2) hp, fun _ => ht.toSameInside⟩

end Observed

end QuoteFeed
