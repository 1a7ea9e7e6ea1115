import QuoteFeed.Proofs.Failures
import QuoteFeed.Proofs.Reentry

/-!
Disconnecting is final: until it is told to connect again, a client asks for no link and does
nothing to those it had, and it stays idle with nothing left over, whatever had been going on when
it was disconnected.
-/

namespace QuoteFeed

variable {β τ : Type} {net : Network τ} {c : Conduct net} {may : Use → Prop} {w v : World τ}

namespace Deed

/-- Deeds by which a link is asked for, started, used or closed. -/
def IsOutward : Deed → Prop
  | asks | dials _ | sends .. | closes _ => True
  | hears _ | connects | disconnects | replays _ | measures .. | publishes _ => False

end Deed

/-- The client has been disconnected, and has not been told to connect since then. -/
def Ended : List Moment → Prop
  | [] => False
  | m :: rest => m.deed = .disconnects ∨ (m.deed ≠ .connects ∧ Ended rest)

instance Ended.decidable : DecidablePred Ended
  | [] => isFalse id
  | m :: rest =>
    have : Decidable (Ended rest) := Ended.decidable rest
    inferInstanceAs (Decidable (m.deed = .disconnects ∨ (m.deed ≠ .connects ∧ Ended rest)))

/-- Nothing is left over: no link, no quote, no attempt that counts and no wait for a reconnect. -/
structure AtRest (client : Client) (clock : Clock) : Prop where
  phase : client.phase = .idle
  link : client.link = none
  quotes : client.board.quotes = []
  attempts : client.backoff.attempts = 0
  waits : clock.waitsFor .reconnect = []

/-- A client that has been disconnected is at rest, and does nothing to any link from then on. -/
structure Final (m : Moment) (rest : List Moment) : Prop where
  resting : m.deed = .disconnects ∨ Ended rest → AtRest m.client m.clock
  still : Ended rest → ¬m.deed.IsOutward

/-- The law of a client that is idle once it has been disconnected. -/
structure Dismissed (c : Conduct net) (w : World τ) : Prop extends Sound c w where
  ended : Ended w.history → w.client.phase = .idle
  lawful : Throughout Final w.history

theorem Sound.atRest (h : Sound c w) (hp : w.client.phase = .idle) : AtRest w.client w.clock where
  phase := hp
  link := h.link_eq_none (by simp [hp]) (by simp [hp])
  quotes := (h.idle hp).1
  attempts := (h.idle hp).2
  waits := h.waits_nil (by simp [hp])

theorem Ended.extend {old new : List Moment} (h : Ended old) (he : Extends (· ≠ .connects) old new) : Ended new := by
  induction he using Extends.induction with
  | start => exact h
  | more _ hm ih => exact .inr ⟨hm, ih⟩

theorem not_ended_extend {old new : List Moment} (h : ¬Ended old) (he : Extends (· ≠ .disconnects) old new) :
    ¬Ended new := by
  induction he using Extends.induction with
  | start => exact h
  | more _ hm ih =>
    rintro (hd | ⟨-, hrest⟩)
    · exact hm hd
    · exact ih hrest

/-- As long as it has not been disconnected, whatever a client does obeys the law. -/
theorem final_extend {old new : List Moment} (h : Throughout Final old) (hn : ¬Ended old)
    (he : Extends (· ≠ .disconnects) old new) : Throughout Final new := by
  induction he using Extends.induction with
  | start => exact h
  | @more m mid he hm ih =>
    have hnot : ¬Ended mid := not_ended_extend hn he
    refine ⟨⟨?_, fun hended => absurd hended hnot⟩, ih⟩
    rintro (hd | hended)
    · exact absurd hd hm
    · exact absurd hended hnot

theorem Dismissed.of_same (h : Dismissed c w) (hs : Sound c v) (hphase : v.client.phase = w.client.phase)
    (hhistory : v.history = w.history) : Dismissed c v where
  toSound := hs
  ended := by
    rw [hhistory, hphase]
    exact h.ended
  lawful := by
    rw [hhistory]
    exact h.lawful

theorem Dismissed.watching (h : Dismissed c w) (f : Watchlist → Watchlist) : Dismissed c (w.watching f) :=
  h.of_same (h.toSound.watching f) rfl rfl

/-- A client that has not been disconnected goes on as it likes. -/
theorem Dismissed.active (h : Dismissed c w) (hs : Sound c v) (hn : ¬Ended w.history)
    (he : Extends (· ≠ .disconnects) w.history v.history) : Dismissed c v where
  toSound := hs
  ended hended := absurd hended (not_ended_extend hn he)
  lawful := final_extend h.lawful hn he

theorem Dismissed.not_ended (h : Dismissed c w) (hp : w.client.phase ≠ .idle) : ¬Ended w.history :=
  fun hended => hp (h.ended hended)

theorem Dismissed.not_ended_of_link (h : Dismissed c w) {link : Nat} (hl : w.client.link = some link) :
    ¬Ended w.history := by
  apply h.not_ended
  rcases h.linked link hl with hp | hp <;> simp [hp]

theorem Dismissed.not_ended_of_current (h : Dismissed c w) (hc : c.Current w) : ¬Ended w.history := by
  apply h.not_ended
  rcases h.phase_of_current hc with hp | hp <;> simp [hp]

/-- Whatever is noted of a client that has been disconnected leaves it at rest, if no link is
concerned. -/
theorem Dismissed.noted (h : Dismissed c w) {d : Deed} (hd : ¬d.IsOutward) (hne : d ≠ .disconnects) :
    Dismissed c (w.noted d) where
  toSound := h.toSound.noted d
  ended := by
    rintro (he | ⟨-, hended⟩)
    · exact absurd he hne
    · exact h.ended hended
  lawful := by
    refine ⟨⟨?_, fun _ => hd⟩, h.lawful⟩
    rintro (he | hended)
    · exact absurd he hne
    · exact h.atRest (h.ended hended)

/-- Sending is in vain once the client has been disconnected, as there is no link. -/
theorem Dismissed.sent (h : Dismissed c w) {frame : Octets} : Dismissed c (w.sent net frame) := by
  cases hl : w.client.link with
  | none =>
    rw [World.sent_of_none hl]
    exact h
  | some link =>
    refine h.active (h.toSound.sent frame) (h.not_ended_of_link hl) ?_
    rw [World.sent_history hl]
    exact Extends.refl.cons nofun

theorem Dismissed.replayed (h : Dismissed c w) {frame : Octets} :
    Dismissed c ((w.noted (.replays frame)).sent net frame) :=
  (h.noted id Deed.noConfusion).sent

/-- Disconnecting closes the link, if there is one, and puts the client to rest. -/
theorem Dismissed.disconnected (h : Dismissed c w) : Dismissed c (w.disconnected net) where
  toSound := h.toSound.disconnected
  ended _ := rfl
  lawful := by
    have hs : Sound c (w.disconnected net) := h.toSound.disconnected
    have hbefore : Throughout Final (w.halted net).history := by
      cases hl : w.client.link with
      | none =>
        rw [World.halted, World.retired_of_none (w := w.cancelled.paced Heartbeat.stop) hl]
        exact h.lawful
      | some link =>
        rw [World.halted, World.retired_history (w := w.cancelled.paced Heartbeat.stop) hl]
        exact final_extend h.lawful (h.not_ended_of_link hl) (Extends.refl.cons nofun)
    exact ⟨⟨fun _ => hs.atRest rfl, fun _ => id⟩, hbefore⟩

theorem Dismissed.dialed (h : Dismissed c w) (hr : Ready w v) : Dismissed c (v.dialed net) := by
  have hn : ¬Ended w.history := by
    cases hr with
    | asked hw =>
      rw [hw]
      rintro (hd | ⟨hne, -⟩)
      · exact Deed.noConfusion hd
      · exact hne rfl
    | hurried _ hp => exact h.not_ended (by simp [hp])
    | due _ _ _ hp => exact h.not_ended (by simp [hp])
  refine h.active (h.toSound.dialed hr) hn ?_
  rw [← hr.history_eq]
  unfold World.dialed
  split
  next => exact (Extends.refl.cons Deed.noConfusion).cons Deed.noConfusion
  all_goals exact Extends.refl.cons Deed.noConfusion

theorem Deed.IsPlain.not_isOutward {d : Deed} (h : d.IsPlain) : ¬d.IsOutward := by
  cases d <;> first | exact id | exact h.elim

theorem Deed.IsPlain.ne_disconnects {d : Deed} (h : d.IsPlain) : d ≠ .disconnects := by
  rintro rfl
  exact h

/-- Being at rest once disconnected is kept by every change that the client makes. -/
def finality (c : Conduct net) (may : Use → Prop) : Discipline c may where
  holds := Dismissed c
  leads _ _ := True
  replaying _ _ := Dismissed c
  refl _ := trivial
  trans _ _ := trivial
  fit h := h.fit
  stir h ht := ⟨h.of_same (h.stirred ht) rfl rfl, trivial⟩
  pass now h := ⟨h.of_same (h.passed now) rfl rfl, trivial⟩
  plain h hd := ⟨h.noted hd.not_isOutward hd.ne_disconnects, trivial⟩
  hear _ _ _ h _ := ⟨h.noted id nofun, trivial⟩
  quote q h hc := ⟨h.of_same (h.quoted q hc) rfl rfl, trivial⟩
  refresh h := ⟨h.of_same (h.paced Heartbeat.steady_refresh) rfl rfl, trivial⟩
  subscribe h _ _ _ := ⟨h.watching _, trivial⟩
  subscribeSent h _ _ _ _ := ⟨(h.watching _).sent, trivial⟩
  unsubscribe h _ _ _ := ⟨h.watching _, trivial⟩
  unsubscribeSent h _ _ _ _ := ⟨(h.watching _).sent, trivial⟩
  lapse h hl hn := ⟨h.of_same (h.unheeded hl hn) (by rw [hl.client_eq]) hl.history_eq, trivial⟩
  ping := by
    intro w u wait frame h hl ht _ _
    have hs : Sound c (u.paced Heartbeat.beat) := (h.lapsed_other hl (by simp [ht])).paced Heartbeat.steady_beat
    have hu : Dismissed c (u.paced Heartbeat.beat) := by
      refine h.of_same hs ?_ hl.history_eq
      rw [← hl.client_eq]
      rfl
    exact ⟨hu.sent, trivial⟩
  disconnect h := ⟨h.disconnected, trivial⟩
  close := by
    intro w h hc
    have hheard : Dismissed c (w.noted (.hears .closed)) := h.noted id nofun
    refine ⟨hheard.active (hheard.closed hc) (hheard.not_ended_of_current hc) ?_, trivial⟩
    have hhistory : ((w.noted (.hears .closed)).closed net).history = (w.noted (.hears .closed)).history :=
      World.dropped_history
    rw [hhistory]
    exact .refl
  plan h hp _ := ⟨h.active (h.planned hp) (h.not_ended (by simp [hp])) (Extends.refl.cons nofun), trivial⟩
  openUnwritten h hc hp _ :=
    ⟨h.active ((h.toSound.noted _).opened hc hp) (h.not_ended_of_current hc) (Extends.refl.cons nofun), trivial⟩
  openStart h hc hp _ :=
    h.active ((h.toSound.noted _).opened hc hp) (h.not_ended_of_current hc) (Extends.refl.cons nofun)
  openFit h := h.fit
  openSent h _ := h.replayed
  openTold h _ _ _ hd := ⟨h.replayed.noted hd.not_isOutward hd.ne_disconnects, fun _ hu _ => hu⟩
  openEnd h := ⟨(h.of_same (h.paced (Heartbeat.steady_start _)) rfl rfl).noted id nofun, trivial⟩
  dial h hr := h.dialed hr
  settle _ _ _ _ _ := trivial
  abandon := by
    intro w v u _ _ h _ _ hp
    refine ⟨h.active (h.abandoned hp) (h.not_ended (by simp [hp])) ?_, trivial⟩
    cases hl : u.client.link with
    | none =>
      rw [World.abandoned, World.retired_of_none hl]
      exact .refl
    | some link =>
      rw [World.abandoned, World.retired_history hl]
      exact Extends.refl.cons nofun

theorem dismissed_of_seen {s : Stage β (World τ)} (h : Seen c may s) : Dismissed c s.rest :=
  (finality c may).holds_of_seen
    (fun settings endpoint _ epoch ht => ⟨sound_start settings endpoint epoch ht, False.elim, trivial⟩) h

/-- What follows upon the disconnecting itself comes after it. -/
theorem remembers_disconnected {s : Stage β (World τ)} {emit : Event → Step (Stage β (World τ)) Unit}
    (hemit : Consumer c may emit) (hfit : c.fit s.rest.outside) :
    (Client.disconnect net emit).Ends s (fun _ t => Remembers (s.rest.disconnected net) t.rest) fun _ _ => False := by
  have hheeds : (recording c may).Heeds emit := Discipline.heeds_of_consumer _ hemit
  have hk : (recording c may).Keeps (s.rest.disconnected net) (s.rest.disconnected net) :=
    .refl ((recording c may).disconnect hfit).1
  simp only [Client.disconnect, Step.ends_bind, Client.ends_current, Client.ends_change, Client.ends_remember,
    Step.ends_ite, Step.ends_pure]
  refine (Client.halt_ends hfit).mono ?_ fun _ _ he => he
  intro _ t ht
  rw [ht]
  refine ⟨fun _ => ?_, fun _ => .refl⟩
  exact (hheeds.tell_plain hk (by simp [Event.kind])).mono (fun _ _ hu => hu.2) fun _ _ he => he

/-- Wherever a client is seen, by its user or by a consumer at any depth: from a disconnecting on,
until it is told to connect, it has been at rest whenever it did anything, and it has not asked for a
link or done anything to one; and it is at rest now. A disconnecting that has come to its end is one
from which on this holds, unless a consumer that heard of it has told the client to connect. -/
theorem disconnecting_is_final {s : Stage β (World τ)} (h : Seen c may s) :
    Throughout Final s.rest.history ∧
    (Ended s.rest.history → AtRest s.rest.client s.rest.clock) ∧
    ∀ (emit : Event → Step (Stage β (World τ)) Unit) (r : Except Failure Unit) (t : Stage β (World τ)),
      Consumer c may emit → (Client.disconnect net emit).outcome s = some (r, t) →
      ∃ added, t.rest.history = added ++ s.rest.history ∧
        ((∀ m ∈ added, m.deed ≠ .connects) → Ended t.rest.history ∧ AtRest t.rest.client t.rest.clock) := by
  have hd : Dismissed c s.rest := dismissed_of_seen h
  refine ⟨hd.lawful, fun hended => hd.atRest (hd.ended hended), ?_⟩
  intro emit r t hemit ho
  have hheeds : (finality c may).Heeds emit := Discipline.heeds_of_consumer _ hemit
  have hends : (Client.disconnect net emit).Ends s
      (fun _ t => (finality c may).Keeps s.rest t.rest ∧ Remembers (s.rest.disconnected net) t.rest) fun _ t =>
        False ∧ False :=
    (hheeds.disconnect (Discipline.Keeps.refl hd)).and (remembers_disconnected hemit hd.fit)
  cases r with
  | error e => exact (hends.failure ho).1.elim
  | ok a =>
    obtain ⟨⟨ht, -⟩, later, hlater, -⟩ := hends.value ho
    obtain ⟨closing, hclosing, -⟩ : Extends Deed.IsMute s.rest.history (s.rest.disconnected net).history :=
      World.extends_disconnected
    have hnow : Ended (s.rest.disconnected net).history := .inl rfl
    refine ⟨later ++ closing, by rw [hlater, hclosing, List.append_assoc], ?_⟩
    intro hadded
    have hended : Ended t.rest.history := by
      exact hnow.extend ⟨later, hlater, fun m hm => hadded m (List.mem_append_left closing hm)⟩
    exact ⟨hended, ht.atRest (ht.ended hended)⟩

namespace ScriptedLinks

/-- A link refuses to start, and whoever hears of this disconnects the client; an instrument is asked
for and the link reports afterwards. -/
def dismissedRun : Stage Unit (World ScriptedLinks) :=
  played false { moves := [.refuses] } { slots := [{ id := 1, kind := .error, body := () }] } disconnecting
    [.connect, .subscribe (octets "A"), .report 0 0 .opened]

theorem dismissedRun_atRest :
    AtRest dismissedRun.rest.client dismissedRun.rest.clock ∧ Throughout Final dismissedRun.rest.history := by
  have hemit : Consumer (conduct false) (fun _ => True) disconnecting :=
    consumer_quietly.hearing fun _ _ => .act .disconnect trivial
  have hs : Reached (conduct false) (fun _ => True) dismissedRun :=
    reached_played (conduct_blank (by decide) rfl (by decide)) hemit fun _ _ => trivial
  have hended : Ended dismissedRun.rest.history := by decide +kernel
  obtain ⟨hthroughout, hrests, -⟩ := disconnecting_is_final (.between hs)
  exact ⟨hrests hended, hthroughout⟩

end ScriptedLinks

end QuoteFeed
