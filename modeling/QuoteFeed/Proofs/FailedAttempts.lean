import QuoteFeed.Proofs.Attempts
import QuoteFeed.Proofs.Reentry

/-!
Attempts that fail: what becomes of a client whose link fails after some reports, as against one
whose link gives the same reports and then closes.
-/

namespace QuoteFeed

variable {β τ : Type} {net : Network τ} {c : Conduct net} {may : Use → Prop}

/-- The first world is what the second one is, but for the failure that has been told in it: the
attempt has been given up. -/
structure LikeClosed (net : Network τ) (e : Failure) (v w : World τ) : Prop where
  client : v.client = w.client
  clock : v.clock = w.clock
  givenUp : v.client.GivenUp
  detached : ∀ link, net.attached? link v.outside = none
  told : ∃ before after, told w.history = after ++ before ∧
    told v.history = after ++ .error (octets "connect failed: " ++ e.message) :: before

section

variable {emit : Event → Step (Stage β (World τ)) Unit} {s : Stage β (World τ)} {w : World τ} {link attempt : Nat}
  {e : Failure} {E : Failure → Stage β (World τ) → Prop}

/-- A failure after the attempt has been lost is told, and nothing else. -/
theorem Observed.abandon_lost (h : Observed c emit) (hs : s.rest.client.GivenUp) :
    (Client.abandon net emit attempt e).Ends s (fun _ t => Tied c t.rest → LikeClosed net e t.rest s.rest) E := by
  refine (h.abandon_late hs.phase_ne.1).mono ?_ fun _ _ he => he
  intro _ t ht htied
  have hclient : t.rest.client = s.rest.client := ht.client
  have hgiven : t.rest.client.GivenUp := hclient ▸ hs
  refine ⟨hclient, ht.clock, hgiven, htied.detached hgiven.link, told s.rest.history, [], rfl, ?_⟩
  rw [ht.history]
  rfl

/-- A failure while the link is awaited is as good as a close, unless a heartbeat runs. -/
theorem Observed.abandon_awaited (h : Observed c emit) (hs : Tied c s.rest) (hl : s.rest.client.link = some link)
    (ha : s.rest.client.attempt = attempt) (hp : s.rest.client.phase = .connecting) :
    (Client.abandon net emit attempt e).Ends s (fun _ t => (Client.receiveFrom net emit link .closed).Ends s
      (fun _ u => Tied c t.rest → (LikeClosed net e t.rest u.rest ↔ s.rest.client.heartbeat.running = false)) E) E := by
  let failure : Event := .error (octets "connect failed: " ++ e.message)
  let failed := (s.rest.noted (.publishes failure)).abandoned net
  let closed := (s.rest.noted (.hears .closed)).closed net
  have hfailed : (failed.parted net false).client.heartbeat = s.rest.client.heartbeat :=
    World.parted_heartbeat.trans World.abandoned_heartbeat
  refine (h.abandon hs.fit ha hp).mono ?_ fun _ _ he => he
  intro _ t ht
  refine Client.receiveFrom_ends hs hl (h.handleClose.mono ?_ fun _ _ he => he)
  intro _ u hu htied
  have hconnected : decide ((s.rest.noted (.hears .closed)).client.phase = .connected) = false :=
    decide_eq_false fun hc => Phase.noConfusion (hp.symm.trans hc)
  rw [hconnected] at hu
  constructor
  · intro hlike
    have hnone := hlike.givenUp.ticking
    rwa [ht.client, hfailed] at hnone
  · intro hr
    obtain ⟨hclient, hclock⟩ : closed.client = failed.client ∧ closed.clock = failed.clock :=
      World.closed_eq_abandoned _ _ hr
    obtain ⟨hclient', hclock'⟩ : (closed.parted net false).client = (failed.parted net false).client ∧
        (closed.parted net false).clock = (failed.parted net false).clock := World.parted_eq hclient hclock
    have hgiven : t.rest.client.GivenUp := by
      rw [ht.client]
      exact World.givenUp_parted rfl World.retired_link
        ((congrArg Heartbeat.running World.abandoned_heartbeat).trans hr)
    refine ⟨ht.client.trans (hclient'.symm.trans hu.client.symm), ht.clock.trans (hclock'.symm.trans hu.clock.symm),
      hgiven, htied.detached hgiven.link, told s.rest.history, closed.client.farewell false, ?_, ?_⟩
    · rw [hu.history, told_parted, told_closed]
    · rw [ht.history, told_parted, told_abandoned hl, hclient]

/-- Whether a failure is as good as a close depends on how the attempt stands when it comes. -/
theorem Observed.abandon_standing {standing : Standing} (h : Observed c emit) (hstanding : standing.Holds w s.rest)
    (hl : w.client.link = some link) (hp : w.client.phase = .connecting) (ha : w.client.attempt = attempt)
    (hs : Tied c s.rest) :
    (Client.abandon net emit attempt e).Ends s (fun _ t => (Client.receiveFrom net emit link .closed).Ends s
      (fun _ u => Tied c t.rest → (LikeClosed net e t.rest u.rest ↔
        standing = .lost ∨ (standing = .awaited ∧ w.client.heartbeat.running = false))) E) E := by
  cases standing with
  | awaited =>
    have hlink : s.rest.client.link = some link := (congrArg Stance.link hstanding).trans hl
    have hattempt : s.rest.client.attempt = attempt := (congrArg Stance.attempt hstanding).trans ha
    have hphase : s.rest.client.phase = .connecting := (congrArg Stance.phase hstanding).trans hp
    have hticking : s.rest.client.heartbeat.running = w.client.heartbeat.running := congrArg Stance.ticking hstanding
    rw [← hticking]
    simpa only [reduceCtorEq, true_and, false_or] using h.abandon_awaited hs hlink hattempt hphase
  | opened =>
    have hlink : s.rest.client.link = some link := hstanding.2.trans hl
    have hphase : s.rest.client.phase ≠ .connecting := by simp [hstanding.1]
    refine (h.abandon_late hphase).mono ?_ fun _ _ he => he
    intro _ t ht
    refine Client.receiveFrom_ends hs hlink (h.handleClose.mono ?_ fun _ _ he => he)
    intro _ u _ _
    simp only [reduceCtorEq, false_and, or_false, iff_false]
    exact fun hlike => hlike.givenUp.phase_ne.2 (ht.client ▸ hstanding.1)
  | lost =>
    refine (h.abandon_lost hstanding).mono ?_ fun _ _ he => he
    intro _ t ht
    refine (Step.ends_iff_of_outcome (Client.receiveFrom_of_none hs hstanding.link)).mpr ?_
    exact fun htied => ⟨fun _ => .inl rfl, fun _ => ht htied⟩
  | stuck => exact hstanding.elim

end

section

variable {emit : Event → Step (Stage β (World τ)) Unit} {s : Stage β (World τ)} {link attempt : Nat} {e : Failure}
  {reports : List Report} {r₁ r₂ : Except Failure Unit} {t₁ t₂ : Stage β (World τ)}

/-- Both links give the same reports, so that they leave the same state behind for the failure or the close. -/
theorem Observed.played (h : Observed c emit) (hheeds : (soundness c may).Heeds emit) (hs : Sound c s.rest)
    (hl : s.rest.client.link = some link) (hp : s.rest.client.phase = .connecting)
    (ha : s.rest.client.attempt = attempt) (he : e.isStandard = true)
    (htied : ∀ j (u : Stage β (World τ)), (soundness c may).Keeps s.rest u.rest →
      (Client.abandon net emit attempt j).Ends u (fun _ t => Tied c t.rest) fun _ _ => False)
    (h₁ : (Client.played net emit link attempt (reports, some e)).outcome s = some (r₁, t₁))
    (h₂ : (Client.played net emit link attempt (reports ++ [.closed], none)).outcome s = some (r₂, t₂)) :
    r₁ = .ok () ∧ r₂ = .ok () ∧
      (LikeClosed net e t₁.rest t₂.rest ↔ Standing.after s.rest.client.watchlist reports = .lost ∨
        (Standing.after s.rest.client.watchlist reports = .awaited ∧ s.rest.client.heartbeat.running = false)) := by
  have hrun := h.receiveAll hheeds hl hp hs reports
  rw [← List.append_nil reports, Client.outcome_played_append] at h₁
  rw [Client.outcome_played_append] at h₂
  cases hx : (reports.forM (Client.receiveFrom net emit link)).outcome s with
  | none => simp only [hx, reduceCtorEq] at h₁
  | some p =>
    obtain ⟨j | _, u⟩ := p
    · obtain ⟨hk, hj, hstuck, hconnected⟩ := hrun.failure hx
      simp only [hx, hj, if_true] at h₁ h₂
      have hlate : (Client.abandon net emit attempt j).Ends u
          (fun _ t => SameInside (u.rest.noted (.publishes (.error (octets "connect failed: " ++ j.message)))) t.rest)
          fun _ _ => False := h.abandon_late (by simp [hconnected])
      cases r₁ with
      | error => exact (hlate.failure h₁).elim
      | ok =>
        cases r₂ with
        | error => exact (hlate.failure h₂).elim
        | ok =>
          refine ⟨rfl, rfl, ?_⟩
          simp only [hstuck, reduceCtorEq, false_and, or_false, iff_false]
          exact fun hlike => hlike.givenUp.phase_ne.2 ((hlate.value h₁).client ▸ hconnected)
    · obtain ⟨hk, hstanding⟩ := hrun.value hx
      have hnest := h.abandon_standing (e := e) (E := fun _ _ => False) hstanding hl hp ha hk.1.toTied
      simp only [hx, Client.outcome_played_failing emit he] at h₁ h₂
      cases r₁ with
      | error => exact (hnest.failure h₁).elim
      | ok =>
        have hclose := Client.played_closing_ends emit attempt (hnest.value h₁)
        cases r₂ with
        | error => exact (hclose.failure h₂).elim
        | ok => exact ⟨rfl, rfl, hclose.value h₂ ((htied e u hk).value h₁)⟩

end

/-- With observers only, an attempt never fails to its caller, and comes to an end if what observers
do does. A link that fails after some reports leaves the client as a link that closes after them,
but for the failure that is told, exactly if the attempt had been lost already, or was awaited and
no heartbeat ran. -/
theorem failing_like_closing_iff {s : Stage β (World τ)} {w : World τ} {prompt : Prompt} {link : Nat} {e : Failure}
    {emit : Event → Step (Stage β (World τ)) Unit} (hs : Seen c may s) (hemit : Consumer c (fun _ => False) emit)
    (hp : Prompted s.rest prompt w) (hm : (net.create s.rest.outside).1 = .ok (some link)) (he : e.isStandard = true)
    (reports : List Report) :
    (∀ (r₁ r₂ : Except Failure Unit) (t₁ t₂ : Stage β (World τ)),
      (prompt.perform (net.playing (reports, some e)) emit).outcome { s with rest := w } = some (r₁, t₁) →
      (prompt.perform (net.playing (reports ++ [.closed], none)) emit).outcome { s with rest := w } = some (r₂, t₂) →
      r₁ = .ok () ∧ r₂ = .ok () ∧
        (LikeClosed net e t₁.rest t₂.rest ↔ Standing.after s.rest.client.watchlist reports = .lost ∨
          (Standing.after s.rest.client.watchlist reports = .awaited ∧ s.rest.client.heartbeat.running = false))) ∧
    ((∀ event, (emit event).Settles) → ∀ play, (prompt.perform (net.playing play) emit).Settles) := by
  obtain ⟨b, s', hb, hr, hperform⟩ := hp.ready emit (s := { s with rest := w })
  have hsound : Sound c b := by
    rcases hb with rfl | rfl
    · exact sound_of_seen hs
    · exact (sound_of_seen hs).noted _
  have hbefore : b.outside = s.rest.outside ∧ b.client = s.rest.client := by
    rcases hb with rfl | rfl <;> exact ⟨rfl, rfl⟩
  have hmade : (net.create s'.rest.outside).1 = .ok (some link) := by
    rw [hr.outside_eq, hbefore.1]
    exact hm
  obtain ⟨m, hdialed, hstart⟩ := Client.outcome_startAttempt emit hmade
  have hclient : m.rest.client = { s'.rest.client with
      phase := .connecting, attempt := s'.rest.client.attempt + 1, link := some link } := by
    rw [hdialed, World.dialed_of_link hmade]
    rfl
  have hobserved : Observed c emit := observed_of_consumer hemit
  have hheeds : (soundness c fun _ => False).Heeds emit := Discipline.heeds_of_consumer _ hemit
  have hsm : Sound c m.rest := hdialed ▸ hsound.dialed hr
  have htied : ∀ j (u : Stage β (World τ)), (soundness c fun _ => False).Keeps m.rest u.rest →
      (Client.abandon net emit (s'.rest.client.attempt + 1) j).Ends u (fun _ t => Tied c t.rest) fun _ _ => False := by
    intro j u hu
    have hkept : (soundness c fun _ => False).Keeps b b := .refl hsound
    exact (hheeds.abandon hkept hr rfl (hdialed ▸ hu)).mono (fun _ _ ht => ht.1.toTied) fun _ _ he => he
  refine ⟨?_, ?_⟩
  · intro r₁ r₂ t₁ t₂ h₁ h₂
    rw [hperform, hstart] at h₁ h₂
    have hcompared := hobserved.played hheeds hsm (by rw [hclient]) (by rw [hclient]) (by rw [hclient]) he htied h₁ h₂
    rw [hclient] at hcompared
    simpa only [hr.watchlist_eq, hr.heartbeat_eq, hbefore.2] using hcompared
  · intro hsettles play
    cases prompt with
    | connect => exact Client.settles_connect hsettles
    | wait v => exact Client.settles_fire hsettles v

namespace ScriptedLinks

/-- Nothing has been done with the client. -/
def untouchedRun : Stage Unit (World ScriptedLinks) := played false {} {} quietly []

theorem untouchedRun_fails_like_closing :
    ∃ t₁ t₂, (Client.connect (network.playing ([.error []], some .connectRefused)) quietly).outcome untouchedRun =
        some (.ok (), t₁) ∧
      (Client.connect (network.playing ([.error [], .closed], none)) quietly).outcome untouchedRun = some (.ok (), t₂) ∧
      LikeClosed network .connectRefused t₁.rest t₂.rest := by
  have hs : Reached (conduct false) (fun _ => True) untouchedRun :=
    reached_played (conduct_blank (by decide) rfl (by decide)) consumer_quietly (by simp)
  have hp : Prompted untouchedRun.rest .connect untouchedRun.rest := .connect nofun nofun
  have hm : (network.create untouchedRun.rest.outside).1 = .ok (some 0) := rfl
  have he : Failure.connectRefused.isStandard = true := rfl
  obtain ⟨hcompared, hsettles⟩ := failing_like_closing_iff (.between hs) consumer_quietly hp hm he [.error []]
  have hends : ∀ event, (quietly event : Step (Stage Unit (World ScriptedLinks)) Unit).Settles :=
    Stage.settles_publish fun _ _ => Step.settles_pure ()
  obtain ⟨r₁, t₁, h₁⟩ := hsettles hends ([.error []], some .connectRefused) untouchedRun
  obtain ⟨r₂, t₂, h₂⟩ := hsettles hends ([.error [], .closed], none) untouchedRun
  obtain ⟨rfl, rfl, hiff⟩ := hcompared r₁ r₂ t₁ t₂ h₁ h₂
  exact ⟨t₁, t₂, h₁, h₂, hiff.mpr (.inr ⟨rfl, rfl⟩)⟩

theorem untouchedRun_opens_and_fails :
    Reached (conduct false) (fun _ => True) untouchedRun ∧
      ∃ t₁ t₂, (Client.connect (network.playing ([.opened], some .connectRefused)) quietly).outcome untouchedRun =
          some (.ok (), t₁) ∧
        (Client.connect (network.playing ([.opened, .closed], none)) quietly).outcome untouchedRun =
          some (.ok (), t₂) ∧
        t₁.rest.client.phase = .connected ∧ t₂.rest.client.phase = .reconnectScheduled :=
  ⟨reached_played (conduct_blank (by decide) rfl (by decide)) consumer_quietly (by simp), _, _, rfl, rfl, rfl, rfl⟩

end ScriptedLinks

end QuoteFeed
