import QuoteFeed.Proofs.Failures

/-!
What becomes of links: each link that has been made is given up in one way only, either closed by
the client or lost by its own report, and no link keeps a callback but the current one. Taking the
client down leaves neither a link nor a wait behind.
-/

namespace QuoteFeed

variable {β τ : Type} {net : Network τ} {c : Conduct net} {may : Use → Prop} {w v : World τ}

/-- How often a link has been started. -/
def dialings (link : Nat) (history : List Moment) : Nat := history.countP fun m => m.deed = .dials link

def closings (link : Nat) (history : List Moment) : Nat := history.countP fun m => m.deed = .closes link

/-- How often a link has reported its own close while it was the current one. -/
def losses (link : Nat) (history : List Moment) : Nat :=
  history.countP fun m => m.deed = .hears .closed ∧ m.client.link = some link

namespace Deed

/-- Deeds by which no link is started or given up. -/
def IsNeutral : Deed → Prop
  | dials _ | closes _ | hears .closed => False
  | hears .opened | hears (.error _) | hears (.frame _) => True
  | connects | disconnects | asks | replays _ | sends .. | measures .. | publishes _ => True

theorem IsPlain.isNeutral {d : Deed} (h : d.IsPlain) : d.IsNeutral := by
  cases d <;> trivial

theorem isNeutral_hears {r : Report} (h : r ≠ .closed) : (hears r).IsNeutral := by
  cases r <;> trivial

end Deed

section

variable {old new : List Moment} {m : Moment} (link : Nat)

theorem dialings_cons : dialings link (m :: old) = dialings link old + if m.deed = .dials link then 1 else 0 := by
  simp [dialings, List.countP_cons]

theorem closings_cons : closings link (m :: old) = closings link old + if m.deed = .closes link then 1 else 0 := by
  simp [closings, List.countP_cons]

theorem losses_cons : losses link (m :: old) =
    losses link old + if m.deed = .hears .closed ∧ m.client.link = some link then 1 else 0 := by
  simp [losses, List.countP_cons]

theorem counts_of_neutral (he : Extends Deed.IsNeutral old new) :
    dialings link new = dialings link old ∧ closings link new = closings link old ∧
      losses link new = losses link old := by
  induction he using Extends.induction with
  | start => exact ⟨rfl, rfl, rfl⟩
  | @more m _ _ hm ih =>
    have hd : m.deed ≠ .dials link := fun hd => by simp [hd, Deed.IsNeutral] at hm
    have hc : m.deed ≠ .closes link := fun hc => by simp [hc, Deed.IsNeutral] at hm
    have hl : m.deed ≠ .hears .closed := fun hl => by simp [hl, Deed.IsNeutral] at hm
    simp only [dialings_cons, closings_cons, losses_cons, hd, hc, hl, false_and, if_false, Nat.add_zero]
    exact ih

end

/-- Each start of a link is matched by its being closed, by its loss, or by its being current, and has
given the link a callback. -/
structure Tallied (c : Conduct net) (w : World τ) : Prop where
  balance : ∀ link, dialings link w.history = closings link w.history + losses link w.history +
    if w.client.link = some link then 1 else 0
  registered : ∀ link, (c.attempts link w.outside).length = dialings link w.history
  once : c.Fresh → ∀ link, dialings link w.history ≤ 1

theorem Tallied.of_same (h : Tallied c w) (hlink : v.client.link = w.client.link)
    (he : Extends Deed.IsNeutral w.history v.history)
    (ho : ∀ link, c.attempts link v.outside = c.attempts link w.outside) : Tallied c v where
  balance link := by
    obtain ⟨hdialings, hclosings, hlosses⟩ := counts_of_neutral link he
    rw [hdialings, hclosings, hlosses, hlink]
    exact h.balance link
  registered link := by
    rw [ho, (counts_of_neutral link he).1]
    exact h.registered link
  once hfresh link := by
    rw [(counts_of_neutral link he).1]
    exact h.once hfresh link

/-- The current link is given up by a deed that says so. -/
theorem Tallied.ended (h : Tallied c w) {current : Nat} {m : Moment} (hl : w.client.link = some current)
    (hlink : v.client.link = none) (hhistory : v.history = m :: w.history)
    (hm : m.deed = .closes current ∨ (m.deed = .hears .closed ∧ m.client.link = some current))
    (ho : ∀ link, c.attempts link v.outside = c.attempts link w.outside) : Tallied c v := by
  have hdialings : ∀ link, dialings link v.history = dialings link w.history := by
    intro link
    rw [hhistory, dialings_cons]
    rcases hm with hd | ⟨hd, -⟩ <;> simp [hd]
  refine ⟨?_, ?_, ?_⟩
  · intro link
    have hbalance := h.balance link
    rw [hl] at hbalance
    rw [hdialings, hhistory, hlink, closings_cons, losses_cons]
    rcases hm with hd | ⟨hd, hcurrent⟩
    · simp only [hd, Deed.closes.injEq, reduceCtorEq, false_and, if_false, Option.some.injEq] at hbalance ⊢
      omega
    · simp only [hd, hcurrent, reduceCtorEq, true_and, if_false, Option.some.injEq] at hbalance ⊢
      omega
  · intro link
    rw [ho, hdialings]
    exact h.registered link
  · intro hfresh link
    rw [hdialings]
    exact h.once hfresh link

theorem Tallied.retired (h : Tallied c w) : Tallied c (w.retired net) := by
  cases hl : w.client.link with
  | none =>
    rw [World.retired_of_none hl]
    exact h
  | some current =>
    exact h.ended hl World.retired_link (World.retired_history hl) (.inl rfl) fun _ => attempts_retired

theorem Tallied.lost (h : Tallied c w) {current : Nat} (hl : w.client.link = some current) :
    Tallied c ((w.noted (.hears .closed)).closed net) := by
  have hhistory : ((w.noted (.hears .closed)).closed net).history = ⟨w.client, w.clock, .hears .closed⟩ :: w.history :=
    World.dropped_history
  exact h.ended hl World.dropped_link hhistory (.inr ⟨rfl, hl⟩) fun _ =>
    attempts_dropped (w := (w.noted _).paced Heartbeat.stop)

theorem Tallied.asked (h : Tallied c w) : Tallied c (w.asked net) :=
  h.of_same rfl (Extends.refl.cons trivial) (c.alike_create _).attempts

/-- A link that is made and started is the current one. -/
theorem Tallied.linked (h : Tallied c w) (hl : w.client.link = none) {current : Nat}
    (hm : (net.create w.outside).1 = .ok (some current)) : Tallied c ((w.asked net).linked net current) := by
  have hasked : Tallied c (w.asked net) := h.asked
  have hbefore : ∀ link, c.attempts link (w.asked net).outside = c.attempts link w.outside :=
    (c.alike_create _).attempts
  have hafter : ∀ link, c.attempts link ((w.asked net).linked net current).outside =
      c.attempts link (net.attach current (w.client.attempt + 1) (net.create w.outside).2.2) :=
    (c.alike_dial _ _ _).attempts
  obtain ⟨m, hhistory, hd⟩ : ∃ m, ((w.asked net).linked net current).history = m :: (w.asked net).history ∧
      m.deed = .dials current := ⟨_, rfl, rfl⟩
  have hdialings : ∀ link, dialings link ((w.asked net).linked net current).history =
      dialings link (w.asked net).history + if current = link then 1 else 0 := by
    intro link
    rw [hhistory, dialings_cons]
    simp [hd]
  refine ⟨?_, ?_, ?_⟩
  · intro link
    have hbalance := hasked.balance link
    rw [show (w.asked net).client.link = none from hl] at hbalance
    rw [hdialings, hhistory, closings_cons, losses_cons,
      show ((w.asked net).linked net current).client.link = some current from rfl]
    simp only [hd, reduceCtorEq, false_and, if_false, Option.some.injEq] at hbalance ⊢
    omega
  · intro link
    have hregistered := hasked.registered link
    rw [hbefore] at hregistered
    rw [hafter, hdialings]
    by_cases he : current = link
    · subst he
      rw [c.attempts_attach _ hm, List.length_cons, if_pos rfl, hregistered]
    · rw [c.attempts_attach_of_ne _ _ (Ne.symm he), (c.alike_create _).attempts, if_neg he, hregistered]
      rfl
  · intro hfresh link
    have honce := hasked.once hfresh link
    rw [hdialings]
    by_cases he : current = link
    · subst he
      have hregistered := hasked.registered current
      rw [hbefore, hfresh _ _ hm, List.length_nil] at hregistered
      rw [if_pos rfl]
      omega
    · rw [if_neg he]
      exact honce

/-- What a client owes to its links and to its heartbeat. -/
structure Accounted (c : Conduct net) (w : World τ) : Prop extends Sound c w where
  tallied : Tallied c w
  ticking : w.client.heartbeat.Ticks w.clock

theorem Accounted.of_same (h : Accounted c w) (hs : Sound c v) (hlink : v.client.link = w.client.link)
    (he : Extends Deed.IsNeutral w.history v.history)
    (ho : ∀ link, c.attempts link v.outside = c.attempts link w.outside)
    (ht : v.client.heartbeat.Ticks v.clock) : Accounted c v :=
  ⟨hs, h.tallied.of_same hlink he ho, ht⟩

theorem Accounted.noted (h : Accounted c w) {d : Deed} (hd : d.IsNeutral) : Accounted c (w.noted d) :=
  h.of_same (h.toSound.noted d) rfl (Extends.refl.cons hd) (fun _ => rfl) h.ticking

theorem Accounted.watching (h : Accounted c w) (f : Watchlist → Watchlist) : Accounted c (w.watching f) :=
  h.of_same (h.toSound.watching f) rfl .refl (fun _ => rfl) h.ticking

theorem Accounted.sent (h : Accounted c w) {frame : Octets} : Accounted c (w.sent net frame) := by
  refine h.of_same (h.toSound.sent frame) ?_ ?_ alike_sent.attempts ?_
  · rw [World.sent_client]
  · cases hl : w.client.link with
    | none =>
      rw [World.sent_of_none hl]
      exact .refl
    | some link =>
      rw [World.sent_history hl]
      exact Extends.refl.cons trivial
  · rw [World.sent_client, World.sent_clock]
    exact h.ticking

theorem Accounted.replayed (h : Accounted c w) {frame : Octets} :
    Accounted c ((w.noted (.replays frame)).sent net frame) :=
  (h.noted (d := .replays frame) trivial).sent

theorem Accounted.opened (h : Accounted c w) (hc : c.Current w) (hp : w.client.phase = .connecting) :
    Accounted c (w.noted (.hears .opened)).opened :=
  h.of_same ((h.toSound.noted _).opened hc hp) rfl (Extends.refl.cons trivial) (fun _ => rfl) h.ticking

theorem Accounted.dialed (h : Accounted c w) (hr : Ready w v) : Accounted c (v.dialed net) := by
  obtain ⟨-, hnone, -⟩ := h.ready hr
  have hv : Tallied c v := by
    refine h.tallied.of_same ?_ (hr.history_eq ▸ .refl) fun _ => by rw [hr.outside_eq]
    have hphase := hr.phase_ne
    rw [hnone, h.link_eq_none hphase.1 hphase.2]
  have hticks : v.client.heartbeat.Ticks v.clock := by
    rw [hr.heartbeat_eq]
    cases hr with
    | asked => exact h.ticking
    | hurried => exact h.ticking.of_waits (Clock.waitsFor_cancel_of_ne nofun)
    | due hl ht =>
      cases hl with
      | late => exact h.ticking
      | due => exact h.ticking.of_waits (Clock.waitsFor_expire_of_ne (by simp [ht]))
  have hs : Sound c (v.dialed net) := h.toSound.dialed hr
  by_cases hm : ∃ link, (net.create v.outside).1 = .ok (some link)
  · obtain ⟨link, hm⟩ := hm
    rw [World.dialed_of_link hm] at hs ⊢
    exact ⟨hs, hv.linked hnone hm, hticks⟩
  · rw [World.dialed_of_no_link hm] at hs ⊢
    exact ⟨hs, hv.asked, hticks⟩

/-- The end of a wait that is not acted on was no ping's. -/
theorem Accounted.lapsed {u : World τ} {wait : Wait} (h : Accounted c w) (hl : Lapses w wait u)
    (hn : ¬Heeded w wait) : Accounted c u := by
  refine h.of_same (h.unheeded hl hn) (by rw [hl.client_eq]) (hl.history_eq ▸ .refl) (fun _ => by rw [hl.outside_eq]) ?_
  rw [hl.client_eq]
  cases hl with
  | late => exact h.ticking
  | due hm =>
    refine h.ticking.of_waits (Clock.waitsFor_expire_of_ne ?_)
    exact fun ht => hn (.inl ⟨ht.symm, h.ticking.expects_of_mem hm ht.symm⟩)

/-- What a client owes is kept by every change that it makes. -/
def accounting (c : Conduct net) (may : Use → Prop) : Discipline c may where
  holds := Accounted c
  leads _ _ := True
  replaying _ _ := Accounted c
  refl _ := trivial
  trans _ _ := trivial
  fit h := h.fit
  stir h ht := ⟨h.of_same (h.stirred ht) rfl .refl ht.attempts h.ticking, trivial⟩
  pass now h := ⟨h.of_same (h.passed now) rfl .refl (fun _ => rfl) h.ticking, trivial⟩
  plain h hd := ⟨h.noted hd.isNeutral, trivial⟩
  hear _ hr _ h _ := ⟨h.noted (Deed.isNeutral_hears hr), trivial⟩
  quote q h hc := ⟨h.of_same (h.quoted q hc) rfl .refl (fun _ => rfl) h.ticking, trivial⟩
  refresh h := ⟨h.of_same (h.paced Heartbeat.steady_refresh) rfl .refl (fun _ => rfl) h.ticking.refresh, trivial⟩
  subscribe h _ _ _ := ⟨h.watching _, trivial⟩
  subscribeSent h _ _ _ _ := ⟨(h.watching _).sent, trivial⟩
  unsubscribe h _ _ _ := ⟨h.watching _, trivial⟩
  unsubscribeSent h _ _ _ _ := ⟨(h.watching _).sent, trivial⟩
  lapse h hl hn := ⟨h.lapsed hl hn, trivial⟩
  ping := by
    intro w u wait frame h hl ht he _
    have hs : Sound c (u.paced Heartbeat.beat) := (h.lapsed_other hl (by simp [ht])).paced Heartbeat.steady_beat
    have hrunning : u.client.heartbeat.running = true := by
      rw [hl.client_eq]
      exact (Bool.and_eq_true_iff.mp he).2
    have hu : Accounted c (u.paced Heartbeat.beat) := by
      refine h.of_same hs ?_ (hl.history_eq ▸ .refl) (fun _ => by rw [← hl.outside_eq]; rfl)
        (Heartbeat.ticks_beat hrunning)
      rw [← hl.client_eq]
      rfl
    exact ⟨hu.sent, trivial⟩
  disconnect := by
    intro w h
    have ht : Tallied c (w.cancelled.paced Heartbeat.stop) := h.tallied.of_same rfl .refl fun _ => rfl
    refine ⟨⟨h.disconnected, ht.retired.of_same rfl (Extends.refl.cons trivial) fun _ => rfl, ?_⟩, trivial⟩
    have hw : w.client.heartbeat.Ticks (w.clock.cancel .reconnect) :=
      h.ticking.of_waits (Clock.waitsFor_cancel_of_ne nofun)
    show (w.halted net).client.heartbeat.Ticks (w.halted net).clock
    rw [World.halted, World.retired_heartbeat, World.retired_clock]
    exact hw.stop
  close := by
    intro w h hc
    obtain ⟨link, hl⟩ := h.exists_link hc
    refine ⟨⟨(h.toSound.noted _).closed hc, h.tallied.lost hl, ?_⟩, trivial⟩
    show (((w.noted _).paced Heartbeat.stop).dropped net).client.heartbeat.Ticks
      (((w.noted _).paced Heartbeat.stop).dropped net).clock
    rw [World.dropped_heartbeat, World.dropped_clock]
    exact h.ticking.stop
  plan h hp _ := ⟨h.of_same (h.planned hp) rfl (Extends.refl.cons trivial) (c.alike_sample _ _ _).attempts
    (h.ticking.of_waits (Clock.waitsFor_arm_of_ne nofun)), trivial⟩
  openUnwritten h hc hp _ := ⟨h.opened hc hp, trivial⟩
  openStart h hc hp _ := h.opened hc hp
  openFit h := h.fit
  openSent h _ := h.replayed
  openTold h _ _ _ hd := ⟨h.replayed.noted hd.isNeutral, fun _ hu _ => hu⟩
  openEnd h := ⟨(h.of_same (h.paced (Heartbeat.steady_start _)) rfl .refl (fun _ => rfl)
    (Heartbeat.ticks_start _)).noted trivial, trivial⟩
  dial h hr := h.dialed hr
  settle _ _ _ _ _ := trivial
  abandon := by
    intro w v u _ _ h _ _ hp
    refine ⟨⟨h.abandoned hp, h.tallied.retired.of_same rfl .refl fun _ => rfl, ?_⟩, trivial⟩
    show (u.retired net).client.heartbeat.Ticks (u.retired net).clock
    rw [World.retired_heartbeat, World.retired_clock]
    exact h.ticking

theorem accounted_start (settings : Settings) (endpoint : Endpoint) {t : τ} (epoch : Instant) (ht : c.Blank t) :
    Accounted c { client := .ofSettings settings endpoint, outside := t, epoch } where
  toSound := sound_start settings endpoint epoch ht
  tallied := ⟨fun _ => rfl, fun link => by simp [ht.attempts, dialings], fun _ _ => Nat.zero_le 1⟩
  ticking := rfl

namespace World

/-- The client is taken down. -/
def demolished (net : Network τ) (w : World τ) : World τ :=
  let v := w.halted net
  { v with client.gone := true }

end World

theorem takeDown_outcome {s : Stage β (World τ)} (hfit : c.fit s.rest.outside) :
    ∃ t, (Client.takeDown net).outcome s = some (.ok (), t) ∧ t.rest = s.rest.demolished net := by
  have hends : (Client.takeDown net).Ends s (fun _ t => t.rest = s.rest.demolished net) fun _ _ => False := by
    simp only [Client.takeDown, Step.ends_bind, Client.ends_change]
    refine (Client.halt_ends hfit).mono ?_ fun _ _ he => he
    intro _ t ht
    rw [ht]
    rfl
  obtain ⟨r, t, ho⟩ := Client.settles_takeDown s
  cases r with
  | ok a => exact ⟨t, ho, hends.value ho⟩
  | error e => exact (hends.failure ho).elim

/-- What has become of links. Only the current one keeps a callback. Each start of a link is matched
by its being closed, by its loss, or by its being current; if every link is made once only, the
current one has been neither closed nor lost, and every other that was ever given a callback has been
either closed once or lost once. -/
structure Disposed (c : Conduct net) (w : World τ) : Prop where
  attached : ∀ link, net.attached? link w.outside ≠ none → w.client.link = some link
  balance : ∀ link, (c.attempts link w.outside).length = closings link w.history + losses link w.history +
    if w.client.link = some link then 1 else 0
  current : c.Fresh → ∀ link, w.client.link = some link → closings link w.history = 0 ∧ losses link w.history = 0
  former : c.Fresh → ∀ link, c.attempts link w.outside ≠ [] → w.client.link ≠ some link →
    net.attached? link w.outside = none ∧
      ((closings link w.history = 1 ∧ losses link w.history = 0) ∨
        (closings link w.history = 0 ∧ losses link w.history = 1))

theorem Tallied.disposed (h : Tallied c w) (ht : Tied c w) : Disposed c w where
  attached link hn := by
    obtain ⟨attempt, ha⟩ := Option.ne_none_iff_exists'.mp hn
    exact ((ht.attached link attempt).mp ha).1
  balance link := (h.registered link).trans (h.balance link)
  current hfresh link hl := by
    have hbalance := h.balance link
    have honce := h.once hfresh link
    rw [if_pos hl] at hbalance
    omega
  former hfresh link hne hl := by
    have hbalance := h.balance link
    have honce := h.once hfresh link
    have hpos : 0 < (c.attempts link w.outside).length := List.length_pos_iff.mpr hne
    rw [h.registered] at hpos
    rw [if_neg hl] at hbalance
    exact ⟨ht.attached_eq_none hl, by omega⟩

/-- Between any two things that are done with a client, every link but the current one has been
disposed of, and the current one is still there. Taking the client down succeeds, disposes of the
current link as well and leaves no wait, neither for a reconnect nor for a ping. -/
theorem links_disposed_of {s : Stage β (World τ)} (h : Reached c may s) :
    Disposed c s.rest ∧
    ∃ t, (Client.takeDown net).outcome s = some (.ok (), t) ∧ t.rest.client.link = none ∧ Disposed c t.rest ∧
      t.rest.clock.waitsFor .reconnect = [] ∧ t.rest.clock.waitsFor .heartbeat = [] := by
  have ha : Accounted c s.rest := ((accounting c may).settled_of_reached (P := fun _ => True)
    (fun settings endpoint _ epoch ht => ⟨accounted_start settings endpoint epoch ht, trivial⟩)
    (fun _ _ => trivial) h).1
  refine ⟨ha.tallied.disposed ha.toTied, ?_⟩
  obtain ⟨t, ho, ht⟩ := takeDown_outcome ha.fit
  refine ⟨t, ho, ?_⟩
  rw [ht]
  have htied : Tied c (s.rest.cancelled.paced Heartbeat.stop) := ha.toTied.of_same rfl rfl (c.alike_refl _)
  have htallied : Tallied c (s.rest.cancelled.paced Heartbeat.stop) := ha.tallied.of_same rfl .refl fun _ => rfl
  have hticks : s.rest.client.heartbeat.Ticks (s.rest.clock.cancel .reconnect) :=
    ha.ticking.of_waits (Clock.waitsFor_cancel_of_ne nofun)
  have hclock : (s.rest.demolished net).clock = (s.rest.client.heartbeat.stop (s.rest.clock.cancel .reconnect)).2 :=
    World.retired_clock
  have htied' : Tied c (s.rest.demolished net) := htied.retired.of_same rfl rfl (c.alike_refl _)
  have htallied' : Tallied c (s.rest.demolished net) := htallied.retired.of_same rfl .refl fun _ => rfl
  refine ⟨World.retired_link, htallied'.disposed htied', ?_, ?_⟩
  · rw [hclock]
    exact (Heartbeat.steady_stop _ _).trans Clock.waitsFor_cancel_self
  · rw [hclock]
    exact hticks.stop.waits_nil Heartbeat.stop_running

namespace ScriptedLinks

/-- One link is lost, and another one is awaited. -/
def disposingRun : Stage Unit (World ScriptedLinks) :=
  played false {} {} quietly [.connect, .report 0 0 .opened, .report 0 0 .closed, .connect]

theorem disposingRun_disposed :
    (closings 0 disposingRun.rest.history = 0 ∧ losses 0 disposingRun.rest.history = 1) ∧
      (closings 1 disposingRun.rest.history = 0 ∧ losses 1 disposingRun.rest.history = 0) ∧
      ∃ t, (Client.takeDown network).outcome disposingRun = some (.ok (), t) ∧ t.rest.client.link = none := by
  have hs : Reached (conduct false) (fun _ => True) disposingRun :=
    reached_played (conduct_blank (by decide) rfl (by decide)) consumer_quietly fun _ _ => trivial
  have hl : disposingRun.rest.client.link = some 1 := by decide +kernel
  obtain ⟨hdisposed, t, ho, hlink, -⟩ := links_disposed_of hs
  have hformer := (hdisposed.former conduct_fresh 0 (by decide +kernel) (by simp [hl])).2
  exact ⟨hformer.resolve_left (by decide +kernel), hdisposed.current conduct_fresh 1 hl, t, ho, hlink⟩

end ScriptedLinks

end QuoteFeed
