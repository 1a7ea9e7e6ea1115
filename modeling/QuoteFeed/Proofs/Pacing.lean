import QuoteFeed.Proofs.Delays
import QuoteFeed.Proofs.History
import QuoteFeed.Proofs.Reentry
import Mathlib.Algebra.Order.Ring.Int
import Mathlib.Tactic.Ring

/-!
The pace of reconnects: what was planned is attempted when its delay is over and not before, unless
the client is told to connect, and the delay is that of the reconnects planned since their count was
last taken back.
-/

namespace QuoteFeed

variable {β τ : Type} {net : Network τ} {c : Conduct net} {may : Use → Prop} {w v : World τ}

namespace Backoff

/-- The delay that was taken for the last attempt that was counted. -/
def lastPeek (b : Backoff) : Int := { b with attempts := b.attempts - 1 }.peek

/-- The limits of the delays are those of the settings. -/
def Obeys (b : Backoff) (s : Settings) : Prop := b.base = s.reconnectBase ∧ b.max = s.reconnectMax

end Backoff

namespace Moment

/-- A reconnect is planned: its delay is measured. -/
def plans (m : Moment) : Bool :=
  match m.deed with
  | .measures name _ => name = octets "reconnect_delay_ms"
  | _ => false

/-- An idle or disconnected client is told to connect. -/
def calls (m : Moment) : Bool :=
  m.deed = .connects && (m.client.phase = .idle || m.client.phase = .disconnected)

/-- The count of reconnects is taken back: a link opens, the client is disconnected, or it makes the
attempt that it was told to make while it was idle or disconnected. -/
def renews (m : Moment) (rest : List Moment) : Bool :=
  match m.deed with
  | .hears .opened => m.client.phase = .connecting
  | .disconnects => true
  | .asks => rest.head?.any calls
  | _ => false

end Moment

/-- How many reconnects have been planned since the count was last taken back. -/
def plannings : List Moment → Nat
  | [] => 0
  | m :: rest => if m.plans then plannings rest + 1 else if m.renews rest then 0 else plannings rest

/-- The reconnect that was planned last had some delay and was planned at some time, and no link has been
asked for since. -/
def PlannedAt (delay instant : Int) : List Moment → Prop
  | [] => False
  | m :: rest =>
    if m.plans then m.client.lastDelay = some delay ∧ m.clock.now = instant
    else m.deed ≠ .asks ∧ PlannedAt delay instant rest

/-- The client has just been told to connect. -/
def Prodded (history : List Moment) : Prop := ∃ m ∈ history.head?, m.deed = .connects

/-- A link is asked for when the client is told to connect, or when the wait of the reconnect is over
that was planned last. -/
def Punctual (m : Moment) (rest : List Moment) : Prop :=
  m.deed = .asks → ¬Prodded rest → ∃ delay instant, PlannedAt delay instant rest ∧
    m.clock.now = instant + Clock.lasting delay ∧ m.client.lastDelay = some delay ∧
    0 < m.client.backoff.attempts ∧ delay = m.client.backoff.lastPeek

/-- Nothing is planned or attempted, and the count is not taken back. -/
structure Moment.Incidental (m : Moment) : Prop where
  plans : m.plans = false
  asks : m.deed ≠ .asks
  disconnects : m.deed ≠ .disconnects
  opens : m.deed = .hears .opened → m.client.phase ≠ .connecting

theorem Moment.Incidental.renews {m : Moment} (h : m.Incidental) (rest : List Moment) : m.renews rest = false := by
  unfold Moment.renews
  split
  next hd => simpa using h.opens hd
  next hd => exact absurd hd h.disconnects
  next hd => exact absurd hd h.asks
  next => rfl

theorem Moment.plans_of_renews {m : Moment} {rest : List Moment} (h : m.renews rest = true) : m.plans = false := by
  unfold Moment.plans
  split
  next name value hd => simp [Moment.renews, hd] at h
  next => rfl

theorem Moment.plans_of_asks {m : Moment} (h : m.deed = .asks) : m.plans = false := by
  simp [Moment.plans, h]

/-- The client has some settings, and takes the limits of its delays from them. -/
structure Client.Under (settings : Settings) (client : Client) : Prop where
  same : client.settings = settings
  limits : client.backoff.Obeys settings

/-- At some moment the client has some settings, and counts the reconnects as the history does. The count
is taken back just after a link has opened. -/
structure Moment.Booked (settings : Settings) (m : Moment) (rest : List Moment) : Prop where
  under : m.client.Under settings
  counted : m.deed ≠ .hears .opened → m.client.backoff.attempts = plannings (m :: rest)
  capped : 0 < settings.maxAttempts.toNat → plannings (m :: rest) ≤ settings.maxAttempts.toNat

/-- What the history of a client with some settings says of its reconnects, of which it counts some. -/
structure Ledger (settings : Settings) (history : List Moment) (count : Nat) : Prop where
  counted : count = plannings history
  capped : 0 < settings.maxAttempts.toNat → count ≤ settings.maxAttempts.toNat
  lawful : Throughout Punctual history
  booked : Throughout (Moment.Booked settings) history

/-- A reconnect is planned, and its wait is armed. -/
structure Planned (w : World τ) : Prop where
  uncalled : w.history.head?.any Moment.calls = false
  pos : 0 < w.client.backoff.attempts
  last : w.client.lastDelay = some w.client.backoff.lastPeek
  armed : ∃ instant, w.clock.waitsFor .reconnect = [{
      timer := .reconnect
      number := w.client.waitNumber
      due := instant + Clock.lasting w.client.backoff.lastPeek }] ∧
    PlannedAt w.client.backoff.lastPeek instant w.history

/-- The law of a client that keeps the pace. -/
structure Metered (c : Conduct net) (w : World τ) : Prop extends Sound c w where
  limits : w.client.backoff.Obeys w.client.settings
  ledger : Ledger w.client.settings w.history w.client.backoff.attempts
  planned : w.client.phase = .reconnectScheduled → Planned w

namespace Ledger

variable {settings : Settings} {history : List Moment} {count : Nat} {m : Moment}

theorem pass (h : Ledger settings history count) (hm : m.client.Under settings)
    (hcount : m.client.backoff.attempts = count) (hi : m.Incidental) : Ledger settings (m :: history) count := by
  have hcounted : count = plannings (m :: history) := by
    rw [plannings, hi.plans, hi.renews history]
    exact h.counted
  refine ⟨hcounted, h.capped, ⟨fun hd => absurd hd hi.asks, h.lawful⟩, ⟨hm, fun _ => ?_, ?_⟩, h.booked⟩
  · exact hcount.trans hcounted
  · exact hcounted ▸ h.capped

theorem plan (h : Ledger settings history count) (hm : m.client.Under settings)
    (hcount : m.client.backoff.attempts = count + 1) (hp : m.plans = true)
    (hroom : 0 < settings.maxAttempts.toNat → count < settings.maxAttempts.toNat) :
    Ledger settings (m :: history) (count + 1) := by
  have hcounted : count + 1 = plannings (m :: history) := by rw [plannings, if_pos hp, h.counted]
  refine ⟨hcounted, hroom, ⟨fun hd => ?_, h.lawful⟩, ⟨hm, fun _ => ?_, ?_⟩, h.booked⟩
  · exact absurd (hp.symm.trans (Moment.plans_of_asks hd)) nofun
  · exact hcount.trans hcounted
  · exact hcounted ▸ hroom

theorem renew (h : Ledger settings history count) (hm : m.client.Under settings)
    (hcount : m.deed ≠ .hears .opened → m.client.backoff.attempts = 0) (hr : m.renews history = true)
    (hp : Punctual m history) : Ledger settings (m :: history) 0 := by
  have hcounted : 0 = plannings (m :: history) := by
    rw [plannings, Moment.plans_of_renews hr, hr]
    rfl
  refine ⟨hcounted, fun _ => Nat.zero_le _, ⟨hp, h.lawful⟩, ⟨hm, fun ho => ?_, fun _ => ?_⟩, h.booked⟩
  · exact (hcount ho).trans hcounted
  · exact hcounted ▸ Nat.zero_le _

theorem ask (h : Ledger settings history count) (hm : m.client.Under settings)
    (hcount : m.client.backoff.attempts = count) (hd : m.deed = .asks) (hr : m.renews history = false)
    (hp : Punctual m history) : Ledger settings (m :: history) count := by
  have hcounted : count = plannings (m :: history) := by
    rw [plannings, Moment.plans_of_asks hd, hr]
    exact h.counted
  refine ⟨hcounted, h.capped, ⟨hp, h.lawful⟩, ⟨hm, fun _ => ?_, ?_⟩, h.booked⟩
  · exact hcount.trans hcounted
  · exact hcounted ▸ h.capped

end Ledger

theorem plannedAt_cons {m : Moment} {history : List Moment} {delay instant : Int} (hi : m.Incidental)
    (h : PlannedAt delay instant history) : PlannedAt delay instant (m :: history) := by
  rw [PlannedAt, hi.plans]
  exact ⟨hi.asks, h⟩

theorem Deed.IsPlain.incidental {d : Deed} (h : d.IsPlain) (client : Client) (clock : Clock) :
    Moment.Incidental ⟨client, clock, d⟩ := by
  cases d with
  | connects => exact ⟨rfl, nofun, nofun, nofun⟩
  | measures name value =>
    have hname : name ≠ octets "reconnect_delay_ms" := h
    exact ⟨by simp [Moment.plans, hname], nofun, nofun, nofun⟩
  | publishes e => exact ⟨rfl, nofun, nofun, nofun⟩
  | _ => exact h.elim

@[simp] theorem World.dropped_backoff : (w.dropped net).client.backoff = w.client.backoff := by
  unfold dropped
  split <;> rfl

@[simp] theorem World.retired_backoff : (w.retired net).client.backoff = w.client.backoff := by
  unfold retired
  split
  next => rfl
  next => exact dropped_backoff

theorem World.dropped_under {settings : Settings} (h : w.client.Under settings) :
    (w.dropped net).client.Under settings := by
  unfold World.dropped
  split
  next => exact h
  next => exact ⟨h.same, h.limits⟩

theorem World.retired_under {settings : Settings} (h : w.client.Under settings) :
    (w.retired net).client.Under settings := by
  unfold World.retired
  split
  next => exact h
  next => exact World.dropped_under h

/-- Closing a link is nothing to the count. -/
theorem Ledger.retired {settings : Settings} {count : Nat} (h : Ledger settings w.history count)
    (hw : w.client.Under settings) (hcount : w.client.backoff.attempts = count) :
    Ledger settings (w.retired net).history count := by
  cases hl : w.client.link with
  | none =>
    rw [World.retired_of_none hl]
    exact h
  | some link =>
    rw [World.retired_history hl]
    refine h.pass (World.dropped_under hw) ?_ ⟨rfl, nofun, nofun, nofun⟩
    rw [World.dropped_backoff]
    exact hcount

namespace Metered

theorem under (h : Metered c w) : w.client.Under w.client.settings := ⟨rfl, h.limits⟩

/-- A client that plans no reconnect owes nothing but its count. -/
theorem of_under {settings : Settings} (hs : Sound c v) (hv : v.client.Under settings)
    (hl : Ledger settings v.history v.client.backoff.attempts) (hp : v.client.phase ≠ .reconnectScheduled) :
    Metered c v := by
  obtain ⟨rfl, hlimits⟩ := hv
  exact ⟨hs, hlimits, hl, fun h => absurd h hp⟩

/-- The law depends on a few fields of the client, on the wait for a reconnect and on the history. -/
theorem of_same (h : Metered c w) (hs : Sound c v) (hsettings : v.client.settings = w.client.settings)
    (hbackoff : v.client.backoff = w.client.backoff) (hlast : v.client.lastDelay = w.client.lastDelay)
    (hphase : v.client.phase = w.client.phase) (hnumber : v.client.waitNumber = w.client.waitNumber)
    (hwaits : v.clock.waitsFor .reconnect = w.clock.waitsFor .reconnect) (hhistory : v.history = w.history) :
    Metered c v where
  toSound := hs
  limits := by
    rw [hbackoff, hsettings]
    exact h.limits
  ledger := by
    rw [hbackoff, hsettings, hhistory]
    exact h.ledger
  planned := by
    rw [hphase]
    intro hp
    have hplanned : Planned w := h.planned hp
    refine ⟨?_, ?_, ?_, ?_⟩
    · rw [hhistory]
      exact hplanned.uncalled
    · rw [hbackoff]
      exact hplanned.pos
    · rw [hbackoff, hlast]
      exact hplanned.last
    · rw [hbackoff, hnumber, hwaits, hhistory]
      exact hplanned.armed

theorem noted (h : Metered c w) {d : Deed} (hi : Moment.Incidental ⟨w.client, w.clock, d⟩) : Metered c (w.noted d) where
  toSound := h.toSound.noted d
  limits := h.limits
  ledger := h.ledger.pass h.under rfl hi
  planned := by
    intro hp
    have hplanned : Planned w := h.planned hp
    have hphase : w.client.phase = .reconnectScheduled := hp
    obtain ⟨instant, harmed, hat⟩ := hplanned.armed
    refine ⟨?_, hplanned.pos, hplanned.last, instant, harmed, plannedAt_cons hi hat⟩
    simp [World.noted, Moment.calls, hphase]

theorem told (h : Metered c w) {d : Deed} (hd : d.IsPlain) : Metered c (w.noted d) := h.noted (hd.incidental _ _)

theorem heard (h : Metered c w) {r : Report} (hr : r = .opened → w.client.phase ≠ .connecting) :
    Metered c (w.noted (.hears r)) := by
  refine h.noted ⟨rfl, nofun, nofun, ?_⟩
  intro hd
  exact hr (Deed.hears.inj hd)

theorem stirred (h : Metered c w) {t : τ} (ht : c.Alike w.outside t) : Metered c { w with outside := t } :=
  h.of_same (h.toSound.stirred ht) rfl rfl rfl rfl rfl rfl rfl

theorem paced (h : Metered c w) {f : Heartbeat → Clock → Heartbeat × Clock} (hf : Heartbeat.Steady f) :
    Metered c (w.paced f) :=
  h.of_same (h.toSound.paced hf) rfl rfl rfl rfl rfl (hf _ _) rfl

theorem watching (h : Metered c w) (f : Watchlist → Watchlist) : Metered c (w.watching f) :=
  h.of_same (h.toSound.watching f) rfl rfl rfl rfl rfl rfl rfl

theorem sent (h : Metered c w) {frame : Octets} : Metered c (w.sent net frame) := by
  cases hl : w.client.link with
  | none =>
    rw [World.sent_of_none hl]
    exact h
  | some link =>
    have hnoted : Metered c (w.noted (.sends link frame)) := h.noted ⟨rfl, nofun, nofun, nofun⟩
    have hsent : w.sent net frame = w.affected (.sends link frame) (net.send link frame w.outside).2.2 := by
      rw [World.sent, hl]
    rw [hsent]
    exact hnoted.stirred (c.alike_send link frame w.outside)

theorem replayed (h : Metered c w) {frame : Octets} : Metered c ((w.noted (.replays frame)).sent net frame) :=
  (h.noted (d := .replays frame) ⟨rfl, nofun, nofun, nofun⟩).sent

theorem disconnected (h : Metered c w) : Metered c (w.disconnected net) := by
  let u : World τ := w.cancelled.paced Heartbeat.stop
  have hu : u.client.Under w.client.settings := ⟨rfl, h.limits⟩
  have hl : Ledger w.client.settings (u.retired net).history w.client.backoff.attempts :=
    Ledger.retired (w := u) h.ledger hu rfl
  have hr : (u.retired net).client.Under w.client.settings := World.retired_under hu
  refine of_under h.toSound.disconnected ⟨hr.same, hr.limits⟩ ?_ nofun
  exact hl.renew ⟨hr.same, hr.limits⟩ (fun _ => rfl) rfl nofun

theorem closed (h : Metered c w) (hc : c.Current w) : Metered c ((w.noted (.hears .closed)).closed net) := by
  have hheard : Metered c (w.noted (.hears .closed)) := h.heard nofun
  have hunder : ((w.noted (.hears .closed)).paced Heartbeat.stop).client.Under w.client.settings := ⟨rfl, h.limits⟩
  have hdropped : (((w.noted (.hears .closed)).paced Heartbeat.stop).dropped net).client.Under w.client.settings :=
    World.dropped_under hunder
  refine of_under (hheard.toSound.closed hc) ⟨hdropped.same, hdropped.limits⟩ ?_ nofun
  have hhistory : ((w.noted (.hears .closed)).closed net).history = (w.noted (.hears .closed)).history :=
    World.dropped_history
  have hbackoff : ((w.noted (.hears .closed)).closed net).client.backoff = w.client.backoff := World.dropped_backoff
  rw [hhistory, hbackoff]
  exact hheard.ledger

theorem abandoned (h : Metered c w) (hp : w.client.phase = .connecting) : Metered c (w.abandoned net) := by
  have hretired : (w.retired net).client.Under w.client.settings := World.retired_under h.under
  refine of_under (h.toSound.abandoned hp) ⟨hretired.same, hretired.limits⟩ ?_ nofun
  have hbackoff : (w.abandoned net).client.backoff = w.client.backoff := World.retired_backoff
  rw [hbackoff]
  exact h.ledger.retired h.under rfl

/-- A link that opens takes the count back. -/
theorem opened (h : Metered c w) (hc : c.Current w) (hp : w.client.phase = .connecting) :
    Metered c (w.noted (.hears .opened)).opened := by
  have hsound : Sound c (w.noted (.hears .opened)).opened := (h.toSound.noted _).opened hc hp
  refine of_under hsound ⟨rfl, h.limits⟩ ?_ nofun
  exact h.ledger.renew h.under (fun ho => absurd rfl ho) (by simp [Moment.renews, hp]) nofun

/-- A reconnect is planned, and its wait armed for the delay. -/
theorem plans (h : Metered c w) (hp : w.client.phase = .disconnected) (hx : w.client.exhausted = false) :
    Metered c (w.planned net) where
  toSound := h.toSound.planned hp
  limits := h.limits
  ledger := by
    refine h.ledger.plan ⟨rfl, h.limits⟩ rfl rfl ?_
    intro hpos
    simpa [Client.exhausted, hpos] using hx
  planned _ := by
    refine ⟨rfl, Nat.succ_pos _, rfl, w.clock.now, ?_, ?_⟩
    · exact Clock.waitsFor_arm_self
    · exact ⟨rfl, rfl⟩

/-- The wait for a reconnect ends as long after the planning as a wait for the delay lasts. -/
theorem due (h : Metered c w) {wait : Wait} (hl : Lapses w wait v) (ht : wait.timer = .reconnect)
    (hn : wait.number = w.client.waitNumber) (hp : w.client.phase = .reconnectScheduled) :
    ∃ instant, PlannedAt w.client.backoff.lastPeek instant v.history ∧
      v.clock.now = instant + Clock.lasting w.client.backoff.lastPeek := by
  obtain ⟨instant, harmed, hat⟩ := (h.planned hp).armed
  cases hl with
  | due hm =>
    have hmem : wait ∈ w.clock.waitsFor .reconnect := List.mem_filter.mpr ⟨hm, by simp [ht]⟩
    rw [harmed, List.mem_singleton] at hmem
    rw [hmem]
    exact ⟨instant, hat, rfl⟩
  | late hlate =>
    have hmem : _ ∈ w.clock.waitsFor .reconnect := harmed ▸ List.mem_singleton_self _
    have hin := (List.mem_filter.mp hmem).1
    exact absurd hn.symm (hlate _ hin ht.symm)

/-- An attempt takes the count back if the client was told to make it while idle or disconnected,
and leaves it as it is otherwise. -/
theorem asked (h : Metered c w) (hr : Ready w v) : (v.asked net).client.Under w.client.settings ∧
    Ledger w.client.settings (v.asked net).history (v.asked net).client.backoff.attempts := by
  cases hr with
  | @asked u hw hp =>
    have hhead : w.history = ⟨u.client, u.clock, .connects⟩ :: u.history := by rw [hw]; rfl
    have hu : u.client.phase = .idle ∨ u.client.phase = .disconnected := by rwa [hw] at hp
    have hprodded : Prodded w.history := ⟨⟨u.client, u.clock, .connects⟩, by rw [hhead]; rfl, rfl⟩
    refine ⟨⟨rfl, h.limits⟩, h.ledger.renew ⟨rfl, h.limits⟩ (fun _ => rfl) ?_ fun _ hn => absurd hprodded hn⟩
    simpa [Moment.renews, hhead, Moment.calls] using hu
  | @hurried u hw hp =>
    have hhead : w.history = ⟨u.client, u.clock, .connects⟩ :: u.history := by rw [hw]; rfl
    have hu : u.client.phase = .reconnectScheduled := by rwa [hw] at hp
    have hprodded : Prodded w.history := ⟨⟨u.client, u.clock, .connects⟩, by rw [hhead]; rfl, rfl⟩
    refine ⟨⟨rfl, h.limits⟩, h.ledger.ask ⟨rfl, h.limits⟩ rfl rfl ?_ fun _ hn => absurd hprodded hn⟩
    have hcalls : w.history.head?.any Moment.calls = false := by simp [hhead, Moment.calls, hu]
    exact hcalls
  | due hl ht hn hp =>
    have hplanned : Planned w := h.planned hp
    obtain ⟨instant, hat, hnow⟩ := h.due hl ht hn hp
    have hcalls : v.history.head?.any Moment.calls = false := by
      rw [hl.history_eq]
      exact hplanned.uncalled
    have hledger : Ledger w.client.settings v.history v.client.backoff.attempts := by
      rw [hl.history_eq, hl.client_eq]
      exact h.ledger
    have hunder : (v.asked net).client.Under w.client.settings := by
      have hv : v.client.Under w.client.settings := hl.client_eq ▸ h.under
      exact ⟨hv.same, hv.limits⟩
    refine ⟨hunder, hledger.ask hunder rfl rfl hcalls fun _ _ => ⟨_, instant, hat, hnow, ?_⟩⟩
    have hlast := hplanned.last
    have hpos := hplanned.pos
    rw [← hl.client_eq] at hlast hpos ⊢
    exact ⟨hlast, hpos, rfl⟩

theorem dialed (h : Metered c w) (hr : Ready w v) : Metered c (v.dialed net) := by
  have hs : Sound c (v.dialed net) := h.toSound.dialed hr
  obtain ⟨hunder, hledger⟩ : (v.asked net).client.Under w.client.settings ∧
      Ledger w.client.settings (v.asked net).history (v.asked net).client.backoff.attempts := h.asked hr
  by_cases hm : ∃ link, (net.create v.outside).1 = .ok (some link)
  · obtain ⟨link, hm⟩ := hm
    rw [World.dialed_of_link hm] at hs ⊢
    refine of_under hs ⟨hunder.same, hunder.limits⟩ ?_ nofun
    exact hledger.pass ⟨hunder.same, hunder.limits⟩ rfl ⟨rfl, nofun, nofun, nofun⟩
  · rw [World.dialed_of_no_link hm] at hs ⊢
    exact of_under hs hunder hledger nofun

/-- The end of a wait that is not acted on is no end of a wait for a reconnect. -/
theorem lapsed (h : Metered c w) {wait : Wait} (hs : Sound c v) (hl : Lapses w wait v)
    (hn : wait ∈ w.clock.waits → wait.timer ≠ .reconnect) : Metered c v := by
  cases hl with
  | late => exact h
  | due hm => exact h.of_same hs rfl rfl rfl rfl rfl (Clock.waitsFor_expire_of_ne (hn hm).symm) rfl

end Metered

@[simp] theorem World.dropped_waitNumber : (w.dropped net).client.waitNumber = w.client.waitNumber := by
  unfold dropped
  split <;> rfl

@[simp] theorem World.retired_waitNumber : (w.retired net).client.waitNumber = w.client.waitNumber := by
  unfold retired
  split
  next => rfl
  next => exact dropped_waitNumber

theorem World.dialed_waitNumber : (w.dialed net).client.waitNumber = w.client.waitNumber := by
  unfold dialed
  split <;> rfl

theorem Ready.waitNumber_le_dialed (h : Ready w v) : w.client.waitNumber ≤ (v.dialed net).client.waitNumber := by
  rw [World.dialed_waitNumber]
  cases h with
  | asked => exact Nat.le_refl _
  | hurried => exact Nat.le_succ _
  | due hl =>
    rw [hl.client_eq]

/-- The pace is kept by every change that the client makes, and the numbers of its waits only grow. -/
def pacing (c : Conduct net) (may : Use → Prop) : Discipline c may where
  holds := Metered c
  leads w v := w.client.waitNumber ≤ v.client.waitNumber
  replaying w _ v := Metered c v ∧ w.client.waitNumber ≤ v.client.waitNumber
  refl _ := Nat.le_refl _
  trans := Nat.le_trans
  fit h := h.fit
  stir h ht := ⟨h.stirred ht, Nat.le_refl _⟩
  pass now h := ⟨h.of_same (h.passed now) rfl rfl rfl rfl rfl rfl rfl, Nat.le_refl _⟩
  plain h hd := ⟨h.told hd, Nat.le_refl _⟩
  hear _ _ hr h _ := ⟨h.heard hr, Nat.le_refl _⟩
  quote q h hc := ⟨h.of_same (h.quoted q hc) rfl rfl rfl rfl rfl rfl rfl, Nat.le_refl _⟩
  refresh h := ⟨h.paced Heartbeat.steady_refresh, Nat.le_refl _⟩
  subscribe h _ _ _ := ⟨h.watching _, Nat.le_refl _⟩
  subscribeSent h _ _ _ _ := ⟨(h.watching _).sent, Nat.le_of_eq (by simp [World.watching])⟩
  unsubscribe h _ _ _ := ⟨h.watching _, Nat.le_refl _⟩
  unsubscribeSent h _ _ _ _ := ⟨(h.watching _).sent, Nat.le_of_eq (by simp [World.watching])⟩
  lapse h hl hn :=
    ⟨h.lapsed (h.unheeded hl hn) hl fun hm ht => hn (.inr ⟨ht, h.armed hm ht⟩), Nat.le_of_eq (by rw [hl.client_eq])⟩
  ping := by
    intro w u v frame h hl ht _ _
    have hu : Metered c u := h.lapsed (h.lapsed_other hl (by simp [ht])) hl fun _ => by simp [ht]
    refine ⟨(hu.paced Heartbeat.steady_beat).sent, ?_⟩
    rw [World.sent_client, ← hl.client_eq]
    exact Nat.le_refl _
  disconnect h :=
    ⟨h.disconnected, by simp [World.disconnected, World.noted, World.halted, World.cancelled, World.paced]⟩
  close h hc := ⟨h.closed hc, by simp [World.closed, World.noted, World.paced]⟩
  plan h hp hx := ⟨h.plans hp hx, Nat.le_succ _⟩
  openUnwritten h hc hp _ := ⟨h.opened hc hp, Nat.le_refl _⟩
  openStart h hc hp _ := ⟨h.opened hc hp, Nat.le_refl _⟩
  openFit h := h.1.fit
  openSent h _ := ⟨h.1.replayed, h.2.trans (Nat.le_of_eq (by simp [World.noted]))⟩
  openTold h _ _ _ hd :=
    ⟨h.1.replayed.told hd, fun _ hu hl => ⟨hu, h.2.trans (Nat.le_trans (Nat.le_of_eq (by simp [World.noted])) hl)⟩⟩
  openEnd h := ⟨(h.1.paced (Heartbeat.steady_start _)).noted ⟨rfl, nofun, nofun, nofun⟩, h.2⟩
  dial h hr := h.dialed hr
  settle _ hr _ hl _ := hr.waitNumber_le_dialed.trans hl
  abandon _ hr hu hl _ hp :=
    ⟨hu.abandoned hp, (hr.waitNumber_le_dialed.trans hl).trans (Nat.le_of_eq (by simp [World.abandoned]))⟩

theorem metered_of_seen {s : Stage β (World τ)} (h : Seen c may s) : Metered c s.rest := by
  refine (pacing c may).holds_of_seen ?_ h
  intro settings endpoint t epoch ht
  refine ⟨sound_start settings endpoint epoch ht, ⟨rfl, rfl⟩, ?_, nofun⟩
  exact ⟨rfl, fun _ => Nat.zero_le _, trivial, trivial⟩

end QuoteFeed
