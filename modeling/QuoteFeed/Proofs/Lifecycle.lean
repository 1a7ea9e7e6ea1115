import QuoteFeed.Proofs.Keeping
import QuoteFeed.Proofs.ScriptedConduct
import QuoteFeed.Proofs.Waits

/-!
Where a client stands agrees with what it has: a link while it connects or is connected, a wait
while a reconnect is planned, and nothing that is left over while it is idle.
-/

namespace QuoteFeed

variable {β τ : Type} {net : Network τ} {c : Conduct net} {may : Use → Prop} {w v : World τ}

/-- The current link is the only one that reports to anybody, and the only one that ever had the
present number. -/
structure Tied (c : Conduct net) (w : World τ) : Prop where
  fit : c.fit w.outside
  attached : ∀ link attempt, net.attached? link w.outside = some attempt ↔
    w.client.link = some link ∧ attempt = w.client.attempt
  attempts : ∀ link attempt, attempt ∈ c.attempts link w.outside →
    attempt ≤ w.client.attempt ∧ (attempt = w.client.attempt → w.client.link = some link)

/-- What a client has, as far as consumers can rely on it: a link that was asked for may not be
there yet. -/
structure Sound (c : Conduct net) (w : World τ) : Prop extends Tied c w where
  linked : ∀ link, w.client.link = some link → w.client.phase = .connecting ∨ w.client.phase = .connected
  connected : w.client.phase = .connected → ∃ link, w.client.link = some link
  waits : (w.clock.waitsFor .reconnect).map Wait.number =
    if w.client.phase = .reconnectScheduled then [w.client.waitNumber] else []
  idle : w.client.phase = .idle → w.client.board.quotes = [] ∧ w.client.backoff.attempts = 0

/-- A connecting client has no link, as none could be made. -/
def World.Hollow (w : World τ) : Prop := w.client.phase = .connecting ∧ w.client.link = none

theorem Tied.of_same (h : Tied c w) (hlink : v.client.link = w.client.link)
    (hattempt : v.client.attempt = w.client.attempt) (ho : c.Alike w.outside v.outside) : Tied c v where
  fit := ho.fit h.fit
  attached := by
    intro link attempt
    rw [ho.attached, hlink, hattempt]
    exact h.attached link attempt
  attempts := by
    intro link attempt ha
    rw [ho.attempts] at ha
    rw [hlink, hattempt]
    exact h.attempts link attempt ha

/-- Without a current link, none reports to anybody. -/
theorem Tied.attached_eq_none (h : Tied c w) {link : Nat} (hl : w.client.link ≠ some link) :
    net.attached? link w.outside = none := by
  cases ha : net.attached? link w.outside with
  | none => rfl
  | some attempt => exact absurd ((h.attached link attempt).mp ha).1 hl

/-- Giving up a link takes its callback away, and leaves its number behind. -/
theorem Tied.dropped (h : Tied c w) : Tied c (w.dropped net) := by
  unfold World.dropped
  split
  next => exact h
  next link hl =>
    refine ⟨c.fit_detach link h.fit, ?_, ?_⟩
    · intro other attempt
      have hnone : net.attached? other (net.detach link w.outside) = none := by
        by_cases ho : other = link
        · rw [ho]
          exact c.attached_detach _ _
        · rw [c.attached_detach_of_ne _ ho]
          exact h.attached_eq_none (by simp [hl, Ne.symm ho])
      simp [hnone]
    · intro other attempt ha
      have ha' : attempt ∈ c.attempts other (net.detach link w.outside) := ha
      rw [c.attempts_detach] at ha'
      have hle := (h.attempts other attempt ha').1
      refine ⟨Nat.le_succ_of_le hle, ?_⟩
      intro he
      have he' : attempt = w.client.attempt + 1 := he
      omega

theorem Tied.retired (h : Tied c w) : Tied c (w.retired net) := by
  unfold World.retired
  split
  next => exact h
  next link hl => exact h.dropped.of_same rfl rfl (c.alike_close _ _)

theorem attempts_dropped {link : Nat} : c.attempts link (w.dropped net).outside = c.attempts link w.outside := by
  unfold World.dropped
  split
  next => rfl
  next => exact c.attempts_detach _ _ _

theorem attempts_retired {link : Nat} : c.attempts link (w.retired net).outside = c.attempts link w.outside := by
  unfold World.retired
  split
  next => rfl
  next => exact ((c.alike_close _ _).attempts link).trans attempts_dropped

/-- A client without a link is sound unless it is connected, once its waits are right. -/
theorem Tied.sound (h : Tied c w) (hl : w.client.link = none) (hp : w.client.phase ≠ .connected)
    (hw : (w.clock.waitsFor .reconnect).map Wait.number =
      if w.client.phase = .reconnectScheduled then [w.client.waitNumber] else [])
    (hi : w.client.phase = .idle → w.client.board.quotes = [] ∧ w.client.backoff.attempts = 0) : Sound c w where
  toTied := h
  linked link hl' := by simp [hl] at hl'
  connected hc := absurd hc hp
  waits := hw
  idle := hi

/-- The law depends on a few fields of the client, on the waits and on the callbacks of links only. -/
theorem Sound.of_same (h : Sound c w) (hphase : v.client.phase = w.client.phase)
    (hlink : v.client.link = w.client.link) (hattempt : v.client.attempt = w.client.attempt)
    (hnumber : v.client.waitNumber = w.client.waitNumber)
    (hwaits : v.clock.waitsFor .reconnect = w.clock.waitsFor .reconnect)
    (hidle : w.client.phase = .idle → v.client.board.quotes = [] ∧ v.client.backoff.attempts = 0)
    (ho : c.Alike w.outside v.outside) : Sound c v where
  toTied := h.toTied.of_same hlink hattempt ho
  linked := by
    rw [hlink, hphase]
    exact h.linked
  connected := by
    rw [hlink, hphase]
    exact h.connected
  waits := by
    rw [hwaits, hphase, hnumber]
    exact h.waits
  idle := by
    rw [hphase]
    exact hidle

theorem Sound.noted (h : Sound c w) (d : Deed) : Sound c (w.noted d) :=
  h.of_same rfl rfl rfl rfl rfl h.idle (c.alike_refl _)

theorem Sound.stirred {t : τ} (h : Sound c w) (ht : c.Alike w.outside t) : Sound c { w with outside := t } :=
  h.of_same rfl rfl rfl rfl rfl h.idle ht

theorem Sound.passed (h : Sound c w) (now : Int) : Sound c { w with clock.now := now } :=
  h.of_same rfl rfl rfl rfl rfl h.idle (c.alike_refl _)

theorem Sound.paced (h : Sound c w) {f : Heartbeat → Clock → Heartbeat × Clock} (hf : Heartbeat.Steady f) :
    Sound c (w.paced f) :=
  h.of_same rfl rfl rfl rfl (hf _ _) h.idle (c.alike_refl _)

theorem Sound.watching (h : Sound c w) (f : Watchlist → Watchlist) : Sound c (w.watching f) :=
  h.of_same rfl rfl rfl rfl rfl h.idle (c.alike_refl _)

/-- Sending leaves the callbacks of links as they are. -/
theorem alike_sent {frame : Octets} : c.Alike w.outside (w.sent net frame).outside := by
  unfold World.sent
  split
  next => exact c.alike_refl _
  next => exact c.alike_send _ _ _

theorem Sound.sent (h : Sound c w) (frame : Octets) : Sound c (w.sent net frame) := by
  refine h.of_same ?_ ?_ ?_ ?_ ?_ ?_ alike_sent <;> simp only [World.sent_client, World.sent_clock]
  exact h.idle

/-- A report that is acted on comes from the current link. -/
theorem Sound.exists_link (h : Sound c w) (hc : c.Current w) : ∃ link, w.client.link = some link := by
  obtain ⟨link, hl⟩ := hc
  exact ⟨link, (h.attempts link _ hl).2 rfl⟩

theorem Sound.phase_of_current (h : Sound c w) (hc : c.Current w) :
    w.client.phase = .connecting ∨ w.client.phase = .connected := by
  obtain ⟨link, hl⟩ := h.exists_link hc
  exact h.linked link hl

/-- The current link has reported to somebody. -/
theorem Sound.attempts_ne_nil (h : Sound c w) {link : Nat} (hl : w.client.link = some link) :
    c.attempts link w.outside ≠ [] :=
  List.ne_nil_of_mem (c.attempts_of_attached ((h.attached link _).mpr ⟨hl, rfl⟩))

theorem Sound.waits_nil (h : Sound c w) (hp : w.client.phase ≠ .reconnectScheduled) :
    w.clock.waitsFor .reconnect = [] := by
  have hw := h.waits
  rw [if_neg hp] at hw
  exact List.map_eq_nil_iff.mp hw

theorem Sound.link_eq_none (h : Sound c w) (hc : w.client.phase ≠ .connecting) (hd : w.client.phase ≠ .connected) :
    w.client.link = none := by
  cases hl : w.client.link with
  | none => rfl
  | some link => exact absurd (h.linked link hl) (not_or.mpr ⟨hc, hd⟩)

theorem Sound.quoted (h : Sound c w) (q : Quote) (hc : c.Current w) : Sound c (w.quoted q) := by
  refine h.of_same rfl rfl rfl rfl rfl ?_ (c.alike_refl _)
  intro hi
  rcases h.phase_of_current hc with hp | hp <;> simp [hi] at hp

theorem Sound.closed (h : Sound c w) (hc : c.Current w) : Sound c (w.closed net) := by
  have hp : w.client.phase ≠ .reconnectScheduled := by
    rcases h.phase_of_current hc with hp | hp <;> simp [hp]
  have ht : Tied c ((w.paced Heartbeat.stop).dropped net) := (h.paced Heartbeat.steady_stop).dropped
  have hw : (w.closed net).clock.waitsFor .reconnect = [] := by
    simp only [World.closed, World.dropped_clock]
    exact (Heartbeat.steady_stop _ _).trans (h.waits_nil hp)
  refine Tied.sound (ht.of_same rfl rfl (c.alike_refl _)) World.dropped_link nofun ?_ nofun
  rw [hw]
  rfl

theorem Sound.abandoned (h : Sound c w) (hp : w.client.phase = .connecting) : Sound c (w.abandoned net) := by
  have hw : (w.abandoned net).clock.waitsFor .reconnect = [] := by
    simp only [World.abandoned, World.retired_clock]
    exact h.waits_nil (by simp [hp])
  refine Tied.sound (h.retired.of_same rfl rfl (c.alike_refl _)) World.retired_link nofun ?_ nofun
  rw [hw]
  rfl

theorem Sound.disconnected (h : Sound c w) : Sound c (w.disconnected net) := by
  have ht : Tied c (w.cancelled.paced Heartbeat.stop) := h.toTied.of_same rfl rfl (c.alike_refl _)
  have hw : (w.disconnected net).clock.waitsFor .reconnect = [] := by
    simp only [World.disconnected, World.noted, World.halted, World.retired_clock]
    exact (Heartbeat.steady_stop _ _).trans Clock.waitsFor_cancel_self
  have hp : (w.disconnected net).client.phase ≠ .connected := Phase.noConfusion
  refine Tied.sound (ht.retired.of_same rfl rfl (c.alike_refl _)) World.retired_link hp ?_ fun _ => ⟨rfl, rfl⟩
  rw [hw]
  rfl

theorem Sound.planned (h : Sound c w) (hp : w.client.phase = .disconnected) : Sound c (w.planned net) := by
  have hl : w.client.link = none := h.link_eq_none (by simp [hp]) (by simp [hp])
  refine Tied.sound (h.toTied.of_same rfl rfl (c.alike_sample _ _ _)) hl nofun ?_ nofun
  simp only [World.planned, Clock.waitsFor_arm_self]
  rfl

theorem Sound.opened (h : Sound c w) (hc : c.Current w) (hp : w.client.phase = .connecting) : Sound c w.opened where
  toTied := h.toTied.of_same rfl rfl (c.alike_refl _)
  linked _ _ := .inr rfl
  connected _ := h.exists_link hc
  waits := by
    rw [show w.opened.clock = w.clock from rfl, h.waits_nil (by simp [hp])]
    rfl
  idle := nofun

/-- A wait that is acted on was armed, and none like it is left. -/
theorem Sound.lapsed {u : World τ} {wait : Wait} (h : Sound c w) (hl : Lapses w wait u) (ht : wait.timer = .reconnect)
    (hn : wait.number = w.client.waitNumber) (hp : w.client.phase = .reconnectScheduled) :
    u.clock.waitsFor .reconnect = [] := by
  cases hl with
  | due =>
    show (w.clock.expire wait).waitsFor .reconnect = []
    rw [← ht]
    exact Clock.waitsFor_expire_self
  | late hlate =>
    have hw := h.waits
    rw [if_pos hp] at hw
    obtain ⟨armed, ha, hnumber⟩ := List.mem_map.mp (hw ▸ List.mem_singleton_self _)
    obtain ⟨hm, htimer⟩ := List.mem_filter.mp ha
    have htimer' : armed.timer = .reconnect := by simpa using htimer
    exact absurd (hnumber.trans hn.symm) (hlate armed hm (htimer'.trans ht.symm))

/-- The end of another wait than that for a reconnect changes nothing that the law looks at. -/
theorem Sound.lapsed_other {u : World τ} {wait : Wait} (h : Sound c w) (hl : Lapses w wait u)
    (ht : wait.timer ≠ .reconnect) : Sound c u := by
  cases hl with
  | late => exact h
  | due => exact h.of_same rfl rfl rfl rfl (Clock.waitsFor_expire_of_ne ht.symm) h.idle (c.alike_refl _)

/-- An armed wait for a reconnect is the present one, and a reconnect is planned. -/
theorem Sound.armed {wait : Wait} (h : Sound c w) (hm : wait ∈ w.clock.waits) (ht : wait.timer = .reconnect) :
    wait.number = w.client.waitNumber ∧ w.client.phase = .reconnectScheduled := by
  have hmem : wait.number ∈ (w.clock.waitsFor .reconnect).map Wait.number :=
    List.mem_map_of_mem (List.mem_filter.mpr ⟨hm, by simp [ht]⟩)
  rw [h.waits] at hmem
  split at hmem
  next hp => exact ⟨by simpa using hmem, hp⟩
  next => simp at hmem

theorem Sound.unheeded {u : World τ} {wait : Wait} (h : Sound c w) (hl : Lapses w wait u) (hn : ¬Heeded w wait) :
    Sound c u := by
  by_cases ht : wait.timer = .reconnect
  · cases hl with
    | late => exact h
    | due hm => exact absurd (.inr ⟨ht, h.armed hm ht⟩) hn
  · exact h.lapsed_other hl ht

/-- Before an attempt there is neither a link nor a wait for a reconnect. -/
theorem Sound.ready (h : Sound c w) (hr : Ready w v) :
    Tied c v ∧ v.client.link = none ∧ v.clock.waitsFor .reconnect = [] := by
  cases hr with
  | asked _ hp =>
    refine ⟨h.toTied.of_same rfl rfl (c.alike_refl _), ?_, ?_⟩
    · rcases hp with hp | hp <;> exact h.link_eq_none (by simp [hp]) (by simp [hp])
    · rcases hp with hp | hp <;> exact h.waits_nil (by simp [hp])
  | hurried _ hp =>
    exact ⟨h.toTied.of_same rfl rfl (c.alike_refl _), h.link_eq_none (by simp [hp]) (by simp [hp]),
      Clock.waitsFor_cancel_self⟩
  | due hl ht hn hp =>
    have hnone := h.link_eq_none (by simp [hp]) (by simp [hp])
    refine ⟨?_, by rw [hl.client_eq]; exact hnone, h.lapsed hl ht hn hp⟩
    exact h.toTied.of_same (by rw [hl.client_eq]) (by rw [hl.client_eq]) (hl.outside_eq ▸ c.alike_refl _)

theorem Tied.asked (h : Tied c w) (hl : w.client.link = none) : Tied c (w.asked net) := by
  have ho : c.Alike w.outside (w.asked net).outside := c.alike_create _
  refine ⟨ho.fit h.fit, ?_, ?_⟩
  · intro link attempt
    rw [ho.attached, h.attached_eq_none (by simp [hl])]
    simp [show (w.asked net).client.link = none from hl]
  · intro link attempt ha
    rw [ho.attempts] at ha
    have hle := (h.attempts link attempt ha).1
    show attempt ≤ w.client.attempt + 1 ∧ (attempt = w.client.attempt + 1 → _)
    exact ⟨by omega, fun he => by omega⟩

/-- A new link is tied to the client by the present number. -/
theorem Tied.linked {link : Nat} (h : Tied c w) (hl : w.client.link = none)
    (hm : (net.create w.outside).1 = .ok (some link)) : Tied c ((w.asked net).linked net link) := by
  have ht : Tied c (w.asked net) := h.asked hl
  have ho := c.alike_dial link w.client.endpoint
    (net.attach link (w.client.attempt + 1) (net.create w.outside).2.2)
  refine ⟨ho.fit (c.fit_attach link _ ht.fit), ?_, ?_⟩
  · intro other attempt
    have heq : net.attached? other ((w.asked net).linked net link).outside =
        net.attached? other (net.attach link (w.client.attempt + 1) (net.create w.outside).2.2) := ho.attached other
    rw [heq]
    show _ ↔ some link = some other ∧ attempt = w.client.attempt + 1
    by_cases he : other = link
    · subst he
      rw [c.attached_attach _ hm]
      simp [eq_comm]
    · have hne : ¬link = other := fun hh => he hh.symm
      have hnone : net.attached? other (net.create w.outside).2.2 = none := by
        rw [(c.alike_create _).attached]
        exact h.attached_eq_none (by simp [hl])
      rw [c.attached_attach_of_ne _ _ he, hnone]
      simp [hne]
  · intro other attempt ha
    have ha' : attempt ∈ c.attempts other (net.attach link (w.client.attempt + 1) (net.create w.outside).2.2) := by
      rw [← ho.attempts other]
      exact ha
    show attempt ≤ w.client.attempt + 1 ∧ (attempt = w.client.attempt + 1 → some link = some other)
    by_cases he : other = link
    · subst he
      rw [c.attempts_attach _ hm] at ha'
      rcases List.mem_cons.mp ha' with he' | hold
      · exact ⟨Nat.le_of_eq he', fun _ => rfl⟩
      · have hle := (h.attempts other attempt hold).1
        exact ⟨by omega, fun _ => rfl⟩
    · rw [c.attempts_attach_of_ne _ _ he, (c.alike_create _).attempts] at ha'
      have hle := (h.attempts other attempt ha').1
      exact ⟨by omega, fun hh => by omega⟩

theorem Sound.dialed (h : Sound c w) (hr : Ready w v) : Sound c (v.dialed net) := by
  obtain ⟨ht, hl, hw⟩ := h.ready hr
  by_cases hm : ∃ link, (net.create v.outside).1 = .ok (some link)
  · obtain ⟨link, hm⟩ := hm
    rw [World.dialed_of_link hm]
    refine ⟨ht.linked hl hm, fun _ _ => .inl rfl, nofun, ?_, nofun⟩
    rw [show ((v.asked net).linked net link).clock = v.clock from rfl, hw]
    rfl
  · rw [World.dialed_of_no_link hm]
    refine (ht.asked hl).sound hl nofun ?_ nofun
    rw [show (v.asked net).clock = v.clock from rfl, hw]
    rfl

/-- Only the same attempt without a link leads to one. -/
def Fills (w v : World τ) : Prop := v.Hollow → w.Hollow ∧ v.client.attempt = w.client.attempt

theorem Fills.of_client_eq (h : v.client = w.client) : Fills w v := by
  intro hv
  unfold World.Hollow at hv ⊢
  rw [h] at hv ⊢
  exact ⟨hv, rfl⟩

theorem Fills.of_phase (h : v.client.phase ≠ .connecting) : Fills w v := fun hv => absurd hv.1 h

theorem Fills.trans {u : World τ} (hv : Fills w v) (hu : Fills v u) : Fills w u := by
  intro h
  obtain ⟨hh, he⟩ := hu h
  obtain ⟨hw, he'⟩ := hv hh
  exact ⟨hw, he.trans he'⟩

/-- Being sound is kept by every change that the client makes. -/
def soundness (c : Conduct net) (may : Use → Prop) : Discipline c may where
  holds := Sound c
  leads := Fills
  replaying w _ v := Sound c v ∧ Fills w v
  refl _ := .of_client_eq rfl
  trans := .trans
  fit h := h.fit
  stir h ht := ⟨h.stirred ht, .of_client_eq rfl⟩
  pass now h := ⟨h.passed now, .of_client_eq rfl⟩
  plain h _ := ⟨h.noted _, .of_client_eq rfl⟩
  hear r _ _ h _ := ⟨h.noted _, .of_client_eq rfl⟩
  quote q h hc := ⟨h.quoted q hc, fun hv => ⟨hv, rfl⟩⟩
  refresh h := ⟨h.paced Heartbeat.steady_refresh, fun hv => ⟨hv, rfl⟩⟩
  subscribe h _ _ _ := ⟨h.watching _, fun hv => ⟨hv, rfl⟩⟩
  subscribeSent h _ _ hp _ := ⟨(h.watching _).sent _, .of_phase (by simp [World.watching, hp])⟩
  unsubscribe h _ _ _ := ⟨h.watching _, fun hv => ⟨hv, rfl⟩⟩
  unsubscribeSent h _ _ hp _ := ⟨(h.watching _).sent _, .of_phase (by simp [World.watching, hp])⟩
  lapse h hl hn := ⟨h.unheeded hl hn, .of_client_eq hl.client_eq⟩
  ping := by
    intro w u v frame h hl ht he _
    have hu := h.lapsed_other hl (by simp [ht])
    refine ⟨(hu.paced Heartbeat.steady_beat).sent frame, ?_⟩
    unfold Fills World.Hollow
    rw [World.sent_client]
    intro hv
    rw [← hl.client_eq]
    exact ⟨hv, rfl⟩
  disconnect h := ⟨h.disconnected, .of_phase nofun⟩
  close h hc := ⟨(h.noted _).closed hc, .of_phase nofun⟩
  plan h hp _ := ⟨h.planned hp, .of_phase nofun⟩
  openUnwritten h hc hp _ := ⟨(h.noted _).opened hc hp, .of_phase nofun⟩
  openStart h hc hp _ := ⟨(h.noted _).opened hc hp, .of_phase nofun⟩
  openFit h := h.1.fit
  openSent h _ := ⟨(h.1.noted _).sent _, h.2.trans (.of_client_eq (World.sent_client))⟩
  openTold := by
    intro w frame frames v link e h _ _ d _
    refine ⟨((h.1.noted _).sent _).noted _, ?_⟩
    intro u hu hl
    have hs : Fills v (((v.noted (.replays frame)).sent net frame).noted d) := .of_client_eq World.sent_client
    exact ⟨hu, h.2.trans (hs.trans hl)⟩
  openEnd h := ⟨(h.1.paced (Heartbeat.steady_start _)).noted _, h.2⟩
  dial h hr := h.dialed hr
  settle := by
    intro w v u _ _ _ hl hd hv
    exfalso
    -- A hollow client is still in the attempt that found no link, so that it should have been given up.
    obtain ⟨hh, he⟩ := hl hv
    rcases hd with ⟨link, hm⟩ | hn | hn
    · have hs : (v.dialed net).client.link = some link := by
        unfold World.dialed
        rw [hm]
        rfl
      exact Option.some_ne_none link (hs.symm.trans hh.2)
    · apply hn
      rw [he]
      unfold World.dialed
      split <;> rfl
    · exact hn hv.1
  abandon _ _ hu _ _ hp := ⟨hu.abandoned hp, .of_phase nofun⟩

theorem sound_start (settings : Settings) (endpoint : Endpoint) {t : τ} (epoch : Instant) (ht : c.Blank t) :
    Sound c { client := .ofSettings settings endpoint, outside := t, epoch } := by
  refine Tied.sound ⟨ht.fit, ?_, ?_⟩ rfl nofun rfl fun _ => ⟨rfl, rfl⟩
  · intro link attempt
    simp [ht.attached, Client.ofSettings]
  · intro link attempt ha
    simp [ht.attempts] at ha

/-- The armed waits that would start an attempt. -/
def World.liveWaits (w : World τ) : List Wait :=
  w.clock.waits.filter fun wait => wait.timer = .reconnect ∧ wait.number = w.client.waitNumber

theorem Sound.length_liveWaits (h : Sound c w) :
    w.liveWaits.length = if w.client.phase = .reconnectScheduled then 1 else 0 := by
  have hl : w.liveWaits = (w.clock.waitsFor .reconnect).filter fun wait => wait.number = w.client.waitNumber := by
    unfold World.liveWaits Clock.waitsFor
    rw [List.filter_filter]
    apply List.filter_congr
    intro wait _
    simp [and_comm]
  have hm := congrArg (fun l => (l.filter fun n => n = w.client.waitNumber).length) h.waits
  rw [List.filter_map, List.length_map] at hm
  rw [hl]
  refine Eq.trans hm ?_
  split <;> simp

/-- Between any two things that are done with a client, it has a link exactly while it connects or
is connected, and this link alone reports to it, under the present number; one wait for a reconnect
is live while a reconnect is planned, and none otherwise; and nothing is left over while it is idle.
-/
theorem client_coherent {s : Stage β (World τ)} (h : Reached c may s) :
    (s.rest.client.link.isSome = true ↔ s.rest.client.phase = .connecting ∨ s.rest.client.phase = .connected) ∧
    (∀ link attempt, net.attached? link s.rest.outside = some attempt ↔
      s.rest.client.link = some link ∧ attempt = s.rest.client.attempt) ∧
    s.rest.liveWaits.length = (if s.rest.client.phase = .reconnectScheduled then 1 else 0) ∧
    (s.rest.client.phase = .idle → s.rest.client.board.quotes = [] ∧ s.rest.client.backoff.attempts = 0) := by
  obtain ⟨hs, hn⟩ := (soundness c may).settled_of_reached (P := fun w => ¬w.Hollow)
    (fun settings endpoint _ epoch ht => ⟨sound_start settings endpoint epoch ht, nofun⟩)
    (fun hn hk hv => hn (hk.2 hv).1) h
  refine ⟨?_, hs.attached, hs.length_liveWaits, hs.idle⟩
  constructor
  · intro hl
    obtain ⟨link, hl'⟩ := Option.isSome_iff_exists.mp hl
    exact hs.linked link hl'
  · rintro (hp | hp)
    · exact Option.isSome_iff_ne_none.mpr fun hl => hn ⟨hp, hl⟩
    · exact Option.isSome_iff_exists.mpr (hs.connected hp)

namespace ScriptedLinks

/-- A link opens and closes while it is started. -/
def closingRun : Stage Unit (World ScriptedLinks) :=
  played false { moves := [.opens, .closes] } {} quietly [.connect]

theorem closingRun_coherent :
    closingRun.rest.liveWaits.length = 1 ∧ network.attached? 0 closingRun.rest.outside = none := by
  have hs : Reached (conduct false) (fun _ => True) closingRun :=
    reached_played (conduct_blank (by decide) rfl (by decide)) consumer_quietly fun _ _ => trivial
  have hp : closingRun.rest.client.phase = .reconnectScheduled := by decide +kernel
  obtain ⟨hlink, hattached, hwaits, -⟩ := client_coherent hs
  refine ⟨hwaits.trans (if_pos hp), ?_⟩
  apply Option.eq_none_iff_forall_ne_some.mpr
  intro attempt ha
  have hsome : closingRun.rest.client.link.isSome = true := by
    rw [((hattached 0 attempt).mp ha).1]
    rfl
  rcases hlink.mp hsome with h | h <;> exact nomatch hp.symm.trans h

end ScriptedLinks

end QuoteFeed
