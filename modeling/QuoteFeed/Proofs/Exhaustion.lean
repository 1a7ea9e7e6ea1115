import QuoteFeed.Proofs.Brackets
import QuoteFeed.Proofs.Budget
import QuoteFeed.Proofs.Reconnects

/-!
What becomes of a client that may make only so many attempts: it counts them, and when it has used them
up it gives up until it is told to connect again.
-/

namespace QuoteFeed

variable {β τ : Type} {net : Network τ} {c : Conduct net} {may : Use → Prop} {w v : World τ}

/-- The client has given up, and it has been told neither to connect nor to disconnect since. -/
def Resigned : List Moment → Prop
  | [] => False
  | m :: rest => m.surrenders ∨ m.deed ≠ .connects ∧ m.deed ≠ .disconnects ∧ Resigned rest

/-- Of a client that has given up nothing more is heard than that the attempt has failed which it has just
made, until it is told to connect or to disconnect. -/
def Resting (m : Moment) (rest : List Moment) : Prop :=
  Resigned rest → m.deed = .connects ∨ m.deed = .disconnects ∨
    ∃ text, m.deed = .publishes (.error (octets "connect failed: " ++ text))

/-- The client has not given up, or has been told something since. -/
structure Active (history : List Moment) : Prop where
  resting : Throughout Resting history
  active : ¬Resigned history

/-- Since it has given up, a client has been disconnected. -/
structure Quits (w : World τ) : Prop where
  resting : Throughout Resting w.history
  phase : Resigned w.history → w.client.phase = .disconnected

section

variable {history added : List Moment} {m : Moment}

theorem Active.add (h : Active history) (hm : ¬m.surrenders) : Active (m :: history) where
  resting := ⟨fun hr => absurd hr h.active, h.resting⟩
  active := by
    rintro (hs | ⟨-, -, hr⟩)
    · exact hm hs
    · exact h.active hr

theorem Active.append (h : Active history) (hadded : ∀ m ∈ added, ¬m.surrenders) : Active (added ++ history) := by
  induction added with
  | nil => exact h
  | cons m added ih =>
    exact (ih fun m' hm' => hadded m' (List.mem_cons_of_mem m hm')).add (hadded m List.mem_cons_self)

theorem Active.quits (h : Active w.history) : Quits w := ⟨h.resting, fun hr => absurd hr h.active⟩

theorem Quits.active (h : Quits w) (hp : w.client.phase ≠ .disconnected) : Active w.history :=
  ⟨h.resting, fun hr => hp (h.phase hr)⟩

/-- To be told to connect or to disconnect is to begin anew. -/
theorem Quits.told (h : Quits w) (hm : m.deed = .connects ∨ m.deed = .disconnects) : Active (m :: w.history) where
  resting := ⟨fun _ => hm.imp_right .inl, h.resting⟩
  active := by
    rintro (hs | ⟨hc, hd, -⟩)
    · rcases hm with hm | hm <;> exact Deed.noConfusion (hm.symm.trans hs.1)
    · exact hm.elim hc hd

theorem World.active_dialed (h : Active w.history) : Active (w.dialed net).history := by
  have hasked : Active (w.asked net).history := h.add fun hs => Deed.noConfusion hs.1
  unfold dialed
  split
  next => exact hasked.add fun hs => Deed.noConfusion hs.1
  all_goals exact hasked

theorem World.active_retired (h : Active w.history) : Active (w.retired net).history := by
  cases hl : w.client.link with
  | none =>
    rw [retired_of_none hl]
    exact h
  | some link =>
    rw [retired_history hl]
    exact h.add fun hs => Deed.noConfusion hs.1

theorem World.quits_parted {connected : Bool} (h : Active w.history) (hp : w.client.phase = .disconnected) :
    Quits (w.parted net connected) := by
  have htold : Active (w.noted (.publishes (.disconnected false connected))).history :=
    h.add fun hs => Event.noConfusion (Deed.publishes.inj hs.1)
  unfold parted replanned
  split
  next => exact ⟨⟨fun hr => absurd hr htold.active, htold.resting⟩, fun _ => hp⟩
  next => exact (htold.add fun hs => Deed.noConfusion hs.1).quits

end

theorem World.active_disconnected (h : Quits w) (hl : ∀ link, w.client.link = some link → w.client.phase.Linked) :
    Active (w.disconnected net).history := by
  let u : World τ := w.cancelled.paced Heartbeat.stop
  cases hlink : w.client.link with
  | none =>
    have hretired : u.retired net = u := retired_of_none hlink
    have hhistory : ∃ m, (w.disconnected net).history = m :: (u.retired net).history ∧ m.deed = .disconnects :=
      ⟨_, rfl, rfl⟩
    obtain ⟨m, hm, hd⟩ := hhistory
    rw [hm, hretired]
    exact h.told (.inr hd)
  | some link =>
    have hp : w.client.phase ≠ .disconnected := by rcases hl link hlink with hp | hp <;> simp [hp]
    have hretired : Active (u.retired net).history := active_retired (w := u) (h.active hp)
    exact hretired.add fun hs => Deed.noConfusion hs.1

/-- One turn leaves a client that has given up disconnected, until it is told something. -/
theorem Turn.quits (h : Turn net may w v) (hw : Quits w) : Quits v := by
  cases h with
  | still h =>
    refine ⟨?_, ?_⟩ <;> rw [h.history]
    · exact hw.resting
    · rw [h.phase]
      exact hw.phase
  | note hp hd =>
    have hactive : Active w.history := hw.active (by rcases hp with hp | hp <;> simp [hp])
    exact (hactive.add fun hs => hs.2 hp).quits
  | complain text =>
    refine ⟨⟨fun _ => .inr (.inr ⟨text, rfl⟩), hw.resting⟩, ?_⟩
    rintro (hs | ⟨-, -, hr⟩)
    · exact absurd hs plain_complaint.surrenders
    · exact hw.phase hr
  | call =>
    have htold : Active (w.noted .connects).history := hw.told (.inl rfl)
    exact (World.active_dialed (w := { w.noted .connects with client.backoff := w.client.backoff.reset }) htold).quits
  | hurry =>
    have htold : Active (w.noted .connects).history := hw.told (.inl rfl)
    exact (World.active_dialed (w := (w.noted .connects).cancelled) htold).quits
  | @due u _ hl hp =>
    have hactive : Active u.history := hl.history_eq ▸ hw.active (by simp [hp])
    exact (World.active_dialed hactive).quits
  | fail text hp =>
    have hactive : Active w.history := hw.active (by simp [hp])
    have hfailed : Active (w.noted (.publishes (.error (octets "connect failed: " ++ text)))).history :=
      hactive.add plain_complaint.surrenders
    exact World.quits_parted (World.active_retired hfailed) rfl
  | lose hp =>
    have hactive : Active w.history := hw.active (by rcases hp with hp | hp <;> simp [hp])
    have hclosed : ((w.noted (.hears .closed)).closed net).history = ⟨w.client, w.clock, .hears .closed⟩ :: w.history :=
      World.dropped_history
    refine World.quits_parted ?_ rfl
    rw [hclosed]
    exact hactive.add fun hs => Deed.noConfusion hs.1
  | dismiss _ hl =>
    have hdisconnected : Active (w.disconnected net).history := World.active_disconnected hw hl
    unfold World.dismissed
    split
    next => exact (hdisconnected.add fun hs => Event.noConfusion (Deed.publishes.inj hs.1)).quits
    next => exact hdisconnected.quits
  | @«open» u hp hu =>
    obtain ⟨added, hadded, hroutine⟩ := hu.history
    have hactive : Active w.history := hw.active (by simp [hp])
    have hopened : Active (w.noted (.hears .opened)).history := hactive.add fun hs => Deed.noConfusion hs.1
    have hreplayed : Active u.history := by
      rw [hadded]
      refine hopened.append fun m hm hs => ?_
      have hphase : m.client.phase = .connected := congrArg Client.phase (hroutine m hm).1
      exact hs.2 (.inr hphase)
    exact (hreplayed.add fun hs => Event.noConfusion (Deed.publishes.inj hs.1)).quits
  | openUnwritten hp =>
    have hactive : Active w.history := hw.active (by simp [hp])
    exact (hactive.add fun hs => Deed.noConfusion hs.1).quits

/-- Uses that tell the client neither to connect nor to disconnect. -/
def Use.IsQuiet : Use → Prop
  | connect | disconnect => False
  | subscribe _ | unsubscribe _ | report .. => True

/-- The client is disconnected, and its history is this one. -/
structure Lies (c : Conduct net) (history : List Moment) (w : World τ) : Prop extends Sound c w where
  phase : w.client.phase = .disconnected
  history : w.history = history

section

variable {history : List Moment} {emit : Event → Step (Stage β (World τ)) Unit} {s t : Stage β (World τ)}
  {E : Failure → Stage β (World τ) → Prop}

theorem Lies.link_eq_none (h : Lies c history w) : w.client.link = none :=
  h.toSound.link_eq_none (by simp [h.phase]) (by simp [h.phase])

theorem Lies.liveWaits_eq_nil (h : Lies c history w) : w.liveWaits = [] := by
  have hlength := h.toSound.length_liveWaits
  rw [if_neg (by simp [h.phase])] at hlength
  exact List.length_eq_zero_iff.mp hlength

theorem Lies.watching (h : Lies c history w) (f : Watchlist → Watchlist) : Lies c history (w.watching f) :=
  ⟨h.toSound.watching f, h.phase, h.history⟩

theorem Lies.lapsed {wait : Wait} (h : Lies c history w) (hl : Lapses w wait v) : Lies c history v := by
  have hunheeded : wait.timer = .reconnect → ¬Heeded w wait := by
    rintro ht (⟨hb, -⟩ | ⟨-, -, hp⟩)
    · exact Timer.noConfusion (ht.symm.trans hb)
    · exact Phase.noConfusion (h.phase.symm.trans hp)
  refine ⟨?_, (congrArg Client.phase hl.client_eq).trans h.phase, hl.history_eq.trans h.history⟩
  by_cases ht : wait.timer = .reconnect
  · exact h.toSound.unheeded hl (hunheeded ht)
  · exact h.toSound.lapsed_other hl ht

/-- A client that is disconnected does nothing about the end of a wait. -/
theorem Lies.fire {wait : Wait} (h : Lies c history s.rest) :
    (Client.fire net emit wait).Ends s (fun _ t => Lies c history t.rest) E := by
  simp only [Client.fire, Step.ends_bind, Client.ends_current]
  cases wait.timer with
  | heartbeat =>
    simp only [Step.ends_ite, Step.ends_bind, Client.ends_changeHeartbeat, Step.ends_pure]
    refine ⟨fun _ => ?_, fun _ => h⟩
    have hpaced : Lies c history (s.rest.paced Heartbeat.beat) :=
      ⟨h.toSound.paced Heartbeat.steady_beat, h.phase, h.history⟩
    simp only [Client.sendWritten, ping_written, Except.mapError, Step.ofExcept, Step.ends_bind, Step.ends_pure,
      Client.send, Client.ends_current, hpaced.link_eq_none]
    exact hpaced
  | reconnect =>
    simp only [Step.ends_ite, Step.ends_pure]
    exact ⟨fun hn => Phase.noConfusion (h.phase.symm.trans hn.2), fun _ => h⟩
  | shutdown => exact Step.ends_pure.mpr h

theorem Lies.perform {op : Use} (hop : op.IsQuiet) (h : Lies c history s.rest) :
    (op.perform c emit).Ends s (fun _ t => Lies c history t.rest) E := by
  have hphase : ∀ {p : Phase}, p ≠ .disconnected → s.rest.client.phase ≠ p := fun hp he => hp (he.symm.trans h.phase)
  cases op with
  | connect => exact hop.elim
  | disconnect => exact hop.elim
  | subscribe id =>
    simp only [Use.perform, Client.subscribe, Step.ends_bind, Client.ends_current]
    rcases s.rest.client.watchlist.add id with ⟨isNew, watchlist⟩
    simp only [Step.ends_ite, Step.ends_bind, Client.ends_change, Client.ends_current, Step.ends_pure]
    refine ⟨fun _ => ⟨?_, fun _ => h.watching fun _ => watchlist⟩, fun _ => h⟩
    exact fun hp => absurd hp (hphase Phase.noConfusion)
  | unsubscribe name =>
    simp only [Use.perform, Client.unsubscribe, Step.ends_bind, Client.ends_current]
    rcases s.rest.client.watchlist.withdraw name with ⟨wasThere, watchlist⟩
    simp only [Step.ends_ite, Step.ends_bind, Client.ends_change, Client.ends_current, Step.ends_pure]
    refine ⟨fun _ => ⟨?_, fun _ => h.watching fun _ => watchlist⟩, fun _ => h⟩
    exact fun hp => absurd hp (hphase Phase.noConfusion)
  | report link index r =>
    simp only [Use.perform, Step.ends_bind, Step.ends_get]
    cases ha : (c.attempts link s.rest.outside)[index]? with
    | none => exact Step.ends_pure.mpr h
    | some attempt =>
      simp only [Client.receive, Step.ends_bind, Client.ends_current, Step.ends_ite, Step.ends_pure]
      refine ⟨?_, fun _ => h⟩
      -- No link has the present number, as no link is the current one.
      rintro rfl
      have hlinked := h.toSound.phase_of_current ⟨link, List.mem_of_getElem? ha⟩
      rcases hlinked with hp | hp
      · exact absurd hp (hphase Phase.noConfusion)
      · exact absurd hp (hphase Phase.noConfusion)

/-- Whatever time passes and whatever links report, a client that is disconnected does nothing. -/
theorem Lies.follows (h : Lies c history s.rest) (hf : Follows c Use.IsQuiet s t) : Lies c history t.rest := by
  induction hf with
  | refl => exact h
  | @use _ t _ emit _ r _ hemit hx ho ih =>
    have hobserved : Observed c emit := observed_of_consumer hemit
    have hends := hx.keeps (P := Lies c history) (s := t)
      (fun hv ht => ⟨hv.toSound.stirred ht, hv.phase, hv.history⟩)
      (fun e u hu => (hobserved e u).mono (fun _ v hv => ?_) fun _ _ he => he.elim)
      (fun hop u hu => hu.perform hop) ih
    · cases r with
      | ok a => exact hends.value ho
      | error e => exact hends.failure ho
    · exact ⟨hv.sound hu.toSound, (congrArg Client.phase hv.client).trans hu.phase, hv.history.trans hu.history⟩
  | pass now _ ih => exact ⟨ih.toSound.passed now, ih.phase, ih.history⟩
  | @lapse t _ emit v w r _ hemit hl ho ih =>
    have hfires : (Client.fire net emit v).Ends { t with rest := w } (fun _ u => Lies c history u.rest)
        fun _ _ => False :=
      (ih.lapsed hl).fire
    cases r with
    | ok a => exact hfires.value ho
    | error e => exact (hfires.failure ho).elim

end

/-- The client has given up: it has told so once, and is disconnected without a link and without a wait. -/
structure GaveUp (before : List Event) (w : World τ) : Prop where
  told : ∃ connected, told w.history =
    .error (octets "reconnect attempts exhausted") :: .disconnected false connected :: before
  phase : w.client.phase = .disconnected
  link : w.client.link = none
  waits : w.liveWaits = []

/-- The second world comes after an attempt that was made in the first one upon being told to connect: a link
was asked for with nothing counted. -/
def Renewed (w v : World τ) : Prop :=
  ∃ later m, v.history = later ++ m :: ⟨w.client, w.clock, .connects⟩ :: w.history ∧ m.deed = .asks ∧
    m.client.backoff.attempts = 0 ∧ plannings (m :: ⟨w.client, w.clock, .connects⟩ :: w.history) = 0

theorem World.dropped_exhausted : (w.dropped net).client.exhausted = w.client.exhausted := by
  unfold dropped
  split <;> rfl

theorem told_retired : told (w.retired net).history = told w.history := by
  cases hl : w.client.link with
  | none => rw [World.retired_of_none hl]
  | some link =>
    rw [World.retired_history hl]
    rfl

theorem GaveUp.of_same {before : List Event} (h : GaveUp before w) (hv : SameInside w v) : GaveUp before v where
  told := hv.history ▸ h.told
  phase := hv.client ▸ h.phase
  link := hv.client ▸ h.link
  waits := by
    have hwaits := h.waits
    unfold World.liveWaits at hwaits ⊢
    rw [hv.client, hv.clock]
    exact hwaits

theorem gaveUp_parted {connected : Bool} (h : Sound c w) (hp : w.client.phase = .disconnected)
    (hx : w.client.exhausted = true) : GaveUp (told w.history) (w.parted net connected) := by
  let v : World τ := (w.noted (.publishes (.disconnected false connected))).noted
    (.publishes (.error (octets "reconnect attempts exhausted")))
  have hparted : w.parted net connected = v := if_pos hx
  have hlies : Lies c v.history v := ⟨(h.noted _).noted _, hp, rfl⟩
  rw [hparted]
  exact ⟨⟨connected, rfl⟩, hp, hlies.link_eq_none, hlies.liveWaits_eq_nil⟩

section

variable {emit : Event → Step (Stage β (World τ)) Unit} {s : Stage β (World τ)} {E : Failure → Stage β (World τ) → Prop}

/-- A client gives up when its link closes and no more attempts are allowed. -/
theorem Observed.close_gaveUp (h : Observed c emit) {link : Nat} (hs : Sound c s.rest)
    (hl : s.rest.client.link = some link) (hx : s.rest.client.exhausted = true) :
    (Client.receiveFrom net emit link .closed).Ends s (fun _ t => GaveUp (told s.rest.history) t.rest) E := by
  refine Client.receiveFrom_ends hs.toTied hl (h.handleClose.mono ?_ fun _ _ he => he)
  intro _ t ht
  let u : World τ := (s.rest.noted (.hears .closed)).closed net
  have hcurrent : c.Current (s.rest.noted (.hears .closed)) :=
    ⟨link, c.attempts_of_attached ((hs.attached link _).mpr ⟨hl, rfl⟩)⟩
  have hsound : Sound c u := (hs.noted _).closed hcurrent
  have hexhausted : u.client.exhausted = true :=
    (World.dropped_exhausted (w := (s.rest.noted (.hears .closed)).paced Heartbeat.stop)).trans hx
  have hgaveUp : GaveUp (told u.history) (u.parted net (s.rest.client.phase = .connected)) :=
    gaveUp_parted hsound rfl hexhausted
  rw [told_closed] at hgaveUp
  exact hgaveUp.of_same ht

/-- A client gives up when an attempt fails and no more are allowed. -/
theorem Observed.abandon_gaveUp (h : Observed c emit) {e : Failure} (hs : Sound c s.rest)
    (hp : s.rest.client.phase = .connecting) (hx : s.rest.client.exhausted = true) :
    (Client.abandon net emit s.rest.client.attempt e).Ends s
      (fun _ t => GaveUp (.error (octets "connect failed: " ++ e.message) :: told s.rest.history) t.rest) E := by
  refine (h.abandon hs.fit rfl hp).mono ?_ fun _ _ he => he
  intro _ t ht
  let u : World τ := s.rest.noted (.publishes (.error (octets "connect failed: " ++ e.message)))
  have hsound : Sound c (u.abandoned net) := (hs.noted _).abandoned hp
  have hexhausted : (u.abandoned net).client.exhausted = true := by
    have hretired : (u.retired net).client.exhausted = true := by
      rw [World.retired_client, World.dropped_exhausted]
      exact hx
    exact hretired
  have hgaveUp : GaveUp (told (u.abandoned net).history) ((u.abandoned net).parted net false) :=
    gaveUp_parted hsound rfl hexhausted
  have htold : told (u.abandoned net).history = told u.history := told_retired
  rw [htold] at hgaveUp
  exact hgaveUp.of_same ht

theorem connect_renewed (h : Metered c s.rest) (hemit : Consumer c may emit)
    (hp : s.rest.client.phase = .disconnected) :
    (Client.connect net emit).Ends s (fun _ t => Renewed s.rest t.rest) fun _ _ => False := by
  have hrecording : (recording c may).Heeds emit := Discipline.heeds_of_consumer _ hemit
  let v : World τ := s.rest.noted .connects
  let t : Stage β (World τ) := { s with rest := { v with client.backoff := v.client.backoff.reset } }
  have hready : Ready v t.rest := .asked rfl (.inr hp)
  have hphase : (s.rest.noted .connects).client.phase = .disconnected := hp
  simp only [Client.connect, Step.ends_bind, Client.ends_remember, Client.ends_current, hphase, Client.ends_change]
  have hdeeds := hrecording.startAttempt_from (w := v) (s := t) (E := fun _ _ => False) h.fit hready fun u hu _ =>
    ⟨fit_retired hu, .of_mute World.extends_abandoned⟩
  refine hdeeds.mono ?_ fun _ _ he => he
  rintro _ u ⟨-, later, hlater, -⟩
  have hnone : ∀ m : Moment, m.deed = .asks →
      plannings (m :: ⟨s.rest.client, s.rest.clock, .connects⟩ :: s.rest.history) = 0 := by
    intro m hm
    have hr : m.renews (⟨s.rest.client, s.rest.clock, .connects⟩ :: s.rest.history) = true := by
      simp [Moment.renews, hm, Moment.calls, hp]
    rw [plannings, Moment.plans_of_asks hm, hr]
    rfl
  unfold World.dialed at hlater
  split at hlater
  next => exact ⟨later ++ [_], _, by rw [hlater, List.append_assoc]; rfl, rfl, rfl, hnone _ rfl⟩
  all_goals exact ⟨later, _, hlater, rfl, rfl, hnone _ rfl⟩

theorem exhausted_of_settings {client : Client} {settings : Settings} (hsame : client.settings = settings)
    (hpos : 0 < settings.maxAttempts.toNat) (hspent : settings.maxAttempts.toNat ≤ client.backoff.attempts) :
    client.exhausted = true := by
  simp [Client.exhausted, hsame, hpos, hspent]

/-- When a client tells that it gives up, it has planned as many reconnects as it may make attempts. -/
theorem Ledger.plannings_of_surrenders {settings : Settings} {newer older : List Moment} {m : Moment} {count : Nat}
    (h : Ledger settings (newer ++ m :: older) count) (hpos : 0 < settings.maxAttempts.toNat) (hm : m.surrenders)
    (hx : m.client.exhausted = true) : plannings older = settings.maxAttempts.toNat := by
  have hbooked : m.Booked settings older := h.booked.at
  have hdeed : m.deed = _ := hm.1
  have hsame : plannings (m :: older) = plannings older := by simp [plannings, Moment.plans, Moment.renews, hdeed]
  have hcounted : m.client.backoff.attempts = plannings older := (hbooked.counted (by simp [hdeed])).trans hsame
  have hle : plannings older ≤ settings.maxAttempts.toNat := hsame ▸ hbooked.capped hpos
  have hge : settings.maxAttempts.toNat ≤ plannings older := by
    have hroom : 0 < m.client.settings.maxAttempts.toNat ∧
        m.client.settings.maxAttempts.toNat ≤ m.client.backoff.attempts := by
      simpa [Client.exhausted] using hx
    rw [hbooked.under.same, hcounted] at hroom
    exact hroom.2
  exact Nat.le_antisymm hle hge

theorem Watched.quits (h : Watched c may s) : Quits s.rest :=
  h.induction (P := Quits) (fun _ _ _ _ => ⟨trivial, False.elim⟩) fun hw ht => ht.quits hw

/-- A client that may make only some attempts counts no more than these wherever it is seen. In a stretch of its
history in which it is told neither to connect nor to disconnect and no link opens, it makes no more by itself.
With observers, a link that closes or an attempt that fails when all are counted leads it to give up: it tells so
once, and is disconnected without a wait. Nothing else is then heard of it in the course of the same attempt, and
nothing at all afterwards, whatever time passes and whatever links report. To be told to connect makes it begin
anew, and it does not give up again before it has planned as many reconnects. -/
theorem attempts_capped (h : Seen c may s) {cap : Nat} (hsettings : s.rest.client.settings.maxAttempts.toNat = cap)
    (hcap : 0 < cap) :
    s.rest.client.backoff.attempts ≤ cap ∧
    (∀ newer stretch older, s.rest.history = newer ++ (stretch ++ older) → (∀ m ∈ stretch, m.Uneventful) →
      unpromptedAsks (stretch ++ older) ≤ unpromptedAsks older + cap) ∧
    (∀ (emit : Event → Step (Stage β (World τ)) Unit) (u : Stage β (World τ)), Consumer c (fun _ => False) emit →
      Sound c u.rest → u.rest.client.settings.maxAttempts.toNat = cap → u.rest.client.backoff.attempts = cap →
      (∀ link, u.rest.client.link = some link → (Client.receiveFrom net emit link .closed).Ends u
        (fun _ t => GaveUp (told u.rest.history) t.rest) fun _ _ => False) ∧
      (∀ e, u.rest.client.phase = .connecting → (Client.abandon net emit u.rest.client.attempt e).Ends u
        (fun _ t => GaveUp (.error (octets "connect failed: " ++ e.message) :: told u.rest.history) t.rest)
        fun _ _ => False) ∧
      ((∀ event, (emit event).Settles) → (∀ link, (Client.receiveFrom net emit link .closed).Settles) ∧
        ∀ attempt e, (Client.abandon net emit attempt e).Settles)) ∧
    (Watched c may s →
      (∀ newer m older, s.rest.history = newer ++ m :: older → m.parts → m.client.backoff.attempts = cap →
        (∃ p ∈ newer.getLast?, p.surrenders) ∧ Answered s.rest.client.phase newer) ∧
      (∀ newer m older, s.rest.history = newer ++ m :: older → m.surrenders →
        plannings older = cap ∧ ∃ p ∈ older.head?, p.parts) ∧
      Throughout Resting s.rest.history ∧
      (Resigned s.rest.history → s.rest.client.phase = .disconnected)) ∧
    (s.rest.client.phase = .disconnected →
      (∀ t, Follows c Use.IsQuiet s t → t.rest.history = s.rest.history ∧ t.rest.client.phase = .disconnected ∧
        t.rest.client.link = none ∧ t.rest.liveWaits = []) ∧
      ∀ emit, Consumer c may emit →
        (Client.connect net emit).Ends s (fun _ t => Renewed s.rest t.rest) (fun _ _ => False) ∧
        ((∀ event, (emit event).Settles) → (Client.connect net emit).Settles)) := by
  subst hsettings
  have hmetered : Metered c s.rest := metered_of_seen h
  refine ⟨hmetered.ledger.capped hcap, ?_, ?_, ?_, ?_⟩
  · intro newer stretch older hhistory hstretch
    have hledger := hmetered.ledger
    rw [hhistory] at hledger
    have hcovered := covered_stretch hledger.lawful.drop hledger.booked.drop hstretch
    exact hcovered.le.trans (Nat.add_le_add_left (plannings_le hledger.booked.drop hcap) _)
  · intro emit u hemit hsound hsame hspent
    have hobserved : Observed c emit := observed_of_consumer hemit
    have hx : u.rest.client.exhausted = true := by
      refine exhausted_of_settings rfl ?_ ?_ <;> rw [hsame]
      · exact hcap
      · exact hspent.ge
    exact ⟨fun _ hl => hobserved.close_gaveUp hsound hl hx, fun _ hp => hobserved.abandon_gaveUp hsound hp hx,
      fun hsettles => ⟨fun link => Client.settles_receiveFrom hsettles link _,
        fun attempt e => Client.settles_abandon hsettles attempt e⟩⟩
  · intro hwatched
    have horderly : Orderly s.rest.client.phase s.rest.history := hwatched.orderly
    have hquits : Quits s.rest := hwatched.quits
    refine ⟨?_, ?_, hquits.resting, hquits.phase⟩
    · intro newer m older hhistory hm hspent
      have hledger := hmetered.ledger
      rw [hhistory] at horderly hledger
      have hbooked : m.Booked s.rest.client.settings older := hledger.booked.at
      exact ⟨horderly.spent hm (exhausted_of_settings hbooked.under.same hcap hspent.ge), horderly.answered hm⟩
    · intro newer m older hhistory hm
      have hledger := hmetered.ledger
      rw [hhistory] at horderly hledger
      have hfits : m.Fits older := horderly.fits.at
      obtain ⟨-, hx, hparts⟩ := hfits.surrendered hm
      exact ⟨hledger.plannings_of_surrenders hcap hm hx, hparts⟩
  · intro hp
    have hlies : Lies c s.rest.history s.rest := ⟨hmetered.toSound, hp, rfl⟩
    refine ⟨?_, ?_⟩
    · intro t ht
      have hlies' : Lies c s.rest.history t.rest := hlies.follows ht
      exact ⟨hlies'.history, hlies'.phase, hlies'.link_eq_none, hlies'.liveWaits_eq_nil⟩
    · exact fun emit hemit => ⟨connect_renewed hmetered hemit hp, fun hsettles => Client.settles_connect hsettles⟩

end

def Client.sparing : Client :=
  .ofSettings { maxAttempts := 1 }
    { tls := true, host := octets "localhost", port := octets "8443", target := octets "/ws" }

theorem Client.create_sparing : create { maxAttempts := 1 } true = .ok sparing := create_eq_ok (by decide +kernel)

namespace ScriptedLinks

def sparingStart : Stage Unit (World ScriptedLinks) :=
  { bus := {}, rest := { client := .sparing, outside := { moves := [.closes] }, epoch := default } }

/-- A link closes while it is started. -/
def closedOnce : Stage Unit (World ScriptedLinks) :=
  (Use.performAll (conduct false) quietly [.connect]).after sparingStart

def sparingWait : Wait := { timer := .reconnect, number := 1, due := 1000 }

/-- The next attempt is made when it is due, its link closes as well, and no more attempts are allowed. -/
def spentRun : Stage Unit (World ScriptedLinks) :=
  (Client.fire network quietly sparingWait).after
    { closedOnce with rest.clock := closedOnce.rest.clock.expire sparingWait }

theorem settles_quietly (e : Event) : (quietly e : Step (Stage Unit (World ScriptedLinks)) Unit).Settles :=
  Stage.settles_publish (fun _ _ => Step.settles_pure ()) e

theorem watched_spentRun {may : Use → Prop} (hmay : may .connect) : Watched (conduct false) may spentRun := by
  have hblank : (conduct false).Blank sparingStart.rest.outside := conduct_blank (by decide) rfl (by decide)
  have honce : Follows (conduct false) may sparingStart closedOnce :=
    Follows.refl.after consumer_quietly (uses_performAll (by simpa using hmay))
  have hl : Lapses closedOnce.rest sparingWait
      { closedOnce.rest with clock := closedOnce.rest.clock.expire sparingWait } := .due (by decide +kernel)
  obtain ⟨r, t, ho⟩ := Client.settles_fire settles_quietly sparingWait
    { closedOnce with rest.clock := closedOnce.rest.clock.expire sparingWait }
  have ht : spentRun = t := by
    unfold spentRun Step.after
    rw [ho]
    rfl
  rw [ht]
  exact ⟨_, .sparing, _, {}, [], default, Client.create_sparing, hblank, honce.lapse consumer_quietly hl ho⟩

theorem spentRun_capped :
    unpromptedAsks spentRun.rest.history = 1 ∧ unpromptedAsks (spentRun.rest.history.drop 10) = 0 ∧
    spentRun.rest.client.phase = .disconnected ∧ (∃ p ∈ (spentRun.rest.history.take 1).getLast?, p.surrenders) ∧
    ∃ t, (Client.connect network quietly).outcome spentRun = some (.ok (), t) ∧ Renewed spentRun.rest t.rest := by
  have hwatched : Watched (conduct false) (fun _ => True) spentRun := watched_spentRun trivial
  have hsettings : spentRun.rest.client.settings.maxAttempts.toNat = 1 := by decide +kernel
  have hphase : spentRun.rest.client.phase = .disconnected := by decide +kernel
  have hasks : unpromptedAsks spentRun.rest.history = 1 ∧ unpromptedAsks (spentRun.rest.history.drop 10) = 0 := by
    decide +kernel
  let m : Moment := spentRun.rest.history.getD 1 ⟨.standard, {}, .connects⟩
  have hhistory : spentRun.rest.history = spentRun.rest.history.take 1 ++ m :: spentRun.rest.history.drop 2 := by
    decide +kernel
  have hm : m.deed = .publishes (.disconnected false false) ∧ m.client.backoff.attempts = 1 := by decide +kernel
  obtain ⟨-, -, -, hgivesUp, hdisconnected⟩ := attempts_capped (.between hwatched.reached) hsettings (by decide)
  obtain ⟨hends, hsettles⟩ := (hdisconnected hphase).2 quietly consumer_quietly
  obtain ⟨r, t, ho⟩ := hsettles settles_quietly spentRun
  cases r with
  | error e => exact (hends.failure ho).elim
  | ok a =>
    exact ⟨hasks.1, hasks.2, hphase, ((hgivesUp hwatched).1 _ _ _ hhistory ⟨false, hm.1⟩ hm.2).1, t, ho, hends.value ho⟩

end ScriptedLinks

end QuoteFeed
