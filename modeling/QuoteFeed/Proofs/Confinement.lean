import QuoteFeed.Proofs.WireAgreement

/-!
Sending and the heartbeat are confined to an open connection as long as no replay is disturbed: a
consumer that hears of a failed sending may move the client on, and the replay goes on regardless.
-/

namespace QuoteFeed

variable {β τ : Type} {net : Network τ} {c : Conduct net} {w v : World τ}

/-- What sending and opening owe to the connection: frames go over the current link, which has
opened as the present attempt, while the client is connected, and the heartbeat runs when an opening
is told exactly if the client is. -/
structure Confined (m : Moment) (rest : List Moment) : Prop where
  sends : ∀ link frame, m.deed = .sends link frame →
    m.client.phase = .connected ∧ m.client.link = some link ∧ Opened link m.client.attempt rest
  connected : ∀ url, m.deed = .publishes (.connected url) →
    (m.client.heartbeat.running = true ↔ m.client.phase = .connected)

namespace Deed

/-- Deeds by which a replay goes on or comes to its end. -/
def IsReplay : Deed → Prop
  | replays _ => True
  | publishes e => e.kind = .connected
  | hears _ | connects | disconnects | asks | dials _ | sends .. | closes _ | measures .. => False

instance : DecidablePred IsReplay
  | replays _ => isTrue trivial
  | publishes e => inferInstanceAs (Decidable (e.kind = .connected))
  | hears _ | connects | disconnects | asks | dials _ | sends .. | closes _ | measures .. => isFalse id

theorem IsMute.not_isReplay {d : Deed} (h : d.IsMute) : ¬d.IsReplay := by
  cases d with
  | replays frame => exact h.elim
  | publishes e => exact h
  | _ => exact id

end Deed

/-- A client is connected whenever a replay turns to its next frame, and when it comes to its end. -/
def Undisturbed (history : List Moment) : Prop := ∀ m ∈ history, m.deed.IsReplay → m.client.phase = .connected

instance (history : List Moment) : Decidable (Undisturbed history) :=
  inferInstanceAs (Decidable (∀ m ∈ history, m.deed.IsReplay → m.client.phase = .connected))

def World.Pending (w : World τ) : Prop := w.client.phase = .connected ∧ w.client.heartbeat.running = false

/-- Ids are well-formed, and the link of a connected client has opened. -/
structure Usable (c : Conduct net) (w : World τ) : Prop extends Sound c w where
  known : ∀ id ∈ w.client.watchlist.ids, Utf8.wellFormed id = true
  opened : w.client.phase = .connected → ∀ link, w.client.link = some link → Opened link w.client.attempt w.history

/-- Whenever consumers are heard, sending and the heartbeat have been confined exactly if no replay
has been disturbed. -/
structure Guarded (c : Conduct net) (w : World τ) : Prop extends Usable c w where
  matched : Undisturbed w.history ↔ Throughout Confined w.history
  beating : Undisturbed w.history → w.client.heartbeat.running = true → w.client.phase = .connected

/-- A replay has lost its link, and will start the heartbeat nevertheless. -/
def Astray (w : World τ) : Prop :=
  ¬Undisturbed w.history ∧ w.client.phase ≠ .connected ∧ w.client.link = none

theorem confined_of_mute {m : Moment} {rest : List Moment} (h : m.deed.IsMute) : Confined m rest := by
  constructor
  · intro link frame hs
    rw [hs] at h
    exact h.elim
  · intro url hs
    rw [hs] at h
    exact absurd rfl h

theorem undisturbed_cons {m : Moment} {rest : List Moment} :
    Undisturbed (m :: rest) ↔ (m.deed.IsReplay → m.client.phase = .connected) ∧ Undisturbed rest :=
  List.forall_mem_cons

theorem Undisturbed.of_extends {old new : List Moment} (he : Extends Deed.IsMute old new) :
    Undisturbed new ↔ Undisturbed old := by
  constructor
  · exact fun h m hm => h m (he.mem_of_mem hm)
  · intro h m hm hd
    rcases he.mem hm with hold | hmute
    · exact h m hold hd
    · exact absurd hd hmute.not_isReplay

theorem Throughout.of_extends {P : Moment → List Moment → Prop} {K : Deed → Prop} {old new : List Moment}
    (h : Throughout P new) (he : Extends K old new) : Throughout P old := by
  induction he using Extends.induction with
  | start => exact h
  | more _ _ ih => exact ih h.2

theorem confined_of_extends {old new : List Moment} (he : Extends Deed.IsMute old new) :
    Throughout Confined new ↔ Throughout Confined old :=
  ⟨fun h => h.of_extends he, fun h => h.extend (fun _ _ hm => confined_of_mute hm) he⟩

/-- The law is kept where nothing is sent, if the client is connected to the same link or not at all. -/
theorem Guarded.extend (h : Guarded c w) (hs : Sound c v) (he : Extends Deed.IsMute w.history v.history)
    (hknown : ∀ id ∈ v.client.watchlist.ids, Utf8.wellFormed id = true)
    (hopened : v.client.phase = .connected → w.client.phase = .connected ∧ v.client.link = w.client.link ∧
      v.client.attempt = w.client.attempt)
    (hbeating : v.client.heartbeat.running = true → v.client.phase = .connected ∨
      (w.client.heartbeat.running = true ∧ w.client.phase ≠ .connected)) : Guarded c v where
  toSound := hs
  known := hknown
  opened := by
    intro hp link hl
    obtain ⟨hw, hlink, hattempt⟩ := hopened hp
    rw [hattempt]
    exact (h.opened hw link (hlink ▸ hl)).extend he
  matched := by
    rw [Undisturbed.of_extends he, confined_of_extends he]
    exact h.matched
  beating := by
    intro hu hr
    rcases hbeating hr with hp | ⟨hrunning, hp⟩
    · exact hp
    · exact absurd (h.beating ((Undisturbed.of_extends he).mp hu) hrunning) hp

theorem Guarded.of_same (h : Guarded c w) (hs : Sound c v) (he : Extends Deed.IsMute w.history v.history)
    (hphase : v.client.phase = w.client.phase) (hlink : v.client.link = w.client.link)
    (hattempt : v.client.attempt = w.client.attempt)
    (hknown : ∀ id ∈ v.client.watchlist.ids, Utf8.wellFormed id = true)
    (hrunning : v.client.heartbeat.running = w.client.heartbeat.running) : Guarded c v := by
  refine h.extend hs he hknown ?_ ?_
  · intro hp
    exact ⟨hphase ▸ hp, hlink, hattempt⟩
  · intro hr
    rw [hphase]
    by_cases hp : w.client.phase = .connected
    · exact .inl hp
    · exact .inr ⟨hrunning ▸ hr, hp⟩

theorem Guarded.heard (h : Guarded c w) {r : Report} : Guarded c (w.noted (.hears r)) :=
  h.of_same (h.noted _) (World.extends_noted trivial) rfl rfl rfl h.known rfl

/-- A client that is not connected keeps the law whatever happens to its heartbeat, unless it is started. -/
theorem Guarded.away (h : Guarded c w) (hs : Sound c v) (he : Extends Deed.IsMute w.history v.history)
    (hp : v.client.phase ≠ .connected) (hids : ∀ id ∈ v.client.watchlist.ids, id ∈ w.client.watchlist.ids)
    (hrunning : v.client.heartbeat.running = true → w.client.heartbeat.running = true ∧ w.client.phase ≠ .connected) :
    Guarded c v :=
  h.extend hs he (fun id hid => h.known id (hids id hid)) (fun hc => absurd hc hp) fun hr => .inr (hrunning hr)

/-- A frame is sent: this is confined if the client is connected, and otherwise no worse than what
must have gone before. -/
theorem Guarded.sent (h : Guarded c w) {frame : Octets}
    (hp : w.client.phase = .connected ∨ ¬Undisturbed w.history) : Guarded c (w.sent net frame) := by
  cases hl : w.client.link with
  | none =>
    rw [World.sent_of_none hl]
    exact h
  | some link =>
    have hhistory : (w.sent net frame).history = ⟨w.client, w.clock, .sends link frame⟩ :: w.history :=
      World.sent_history hl
    have hu : Undisturbed (w.sent net frame).history ↔ Undisturbed w.history := by
      rw [hhistory, undisturbed_cons]
      exact ⟨fun hh => hh.2, fun hh => ⟨False.elim, hh⟩⟩
    refine ⟨⟨h.toSound.sent frame, ?_, ?_⟩, ?_, ?_⟩
    · rw [World.sent_client]
      exact h.known
    · rw [World.sent_client, hhistory]
      intro hc link' hl'
      exact (h.opened hc link' hl').cons
    · rw [hu, h.matched, hhistory]
      constructor
      · intro hthroughout
        refine ⟨⟨?_, nofun⟩, hthroughout⟩
        intro link' frame' hd
        obtain ⟨rfl, -⟩ := Deed.sends.inj hd
        have hc : w.client.phase = .connected := hp.resolve_right fun hn => hn (h.matched.mpr hthroughout)
        exact ⟨hc, hl, h.opened hc link hl⟩
      · exact fun hthroughout => hthroughout.2
    · rw [hu, World.sent_client]
      exact h.beating

/-- During a replay, either the law holds or the replay has gone astray. -/
structure Going (c : Conduct net) (w : World τ) : Prop extends Usable c w where
  either : Guarded c w ∨ Astray w

theorem Guarded.going (h : Guarded c w) : Going c w := ⟨h.toUsable, .inl h⟩

theorem undisturbed_replays {client : Client} {clock : Clock} {frame : Octets} {history : List Moment} :
    Undisturbed (⟨client, clock, .replays frame⟩ :: history) ↔ client.phase = .connected ∧ Undisturbed history := by
  rw [undisturbed_cons]
  exact and_congr_left fun _ => ⟨fun h => h trivial, fun h _ => h⟩

theorem undisturbed_opening {client : Client} {clock : Clock} {url : Octets} {history : List Moment} :
    Undisturbed (⟨client, clock, .publishes (.connected url)⟩ :: history) ↔
      client.phase = .connected ∧ Undisturbed history := by
  rw [undisturbed_cons]
  exact and_congr_left fun _ => ⟨fun h => h rfl, fun h _ => h⟩

theorem Usable.replayed (h : Usable c w) {frame : Octets} : Usable c (w.noted (.replays frame)) where
  toSound := h.noted _
  known := h.known
  opened := by
    intro hp link hl
    exact (h.opened hp link hl).cons

/-- A replay that still has a link goes on under the law: if it is disturbed, so is the sending of
the frame. -/
theorem Guarded.replayed (h : Guarded c w) {frame : Octets} {link : Nat} (hl : w.client.link = some link) :
    Guarded c ((w.noted (.replays frame)).sent net frame) := by
  -- A client with a link that is not connected awaits its opening: sending is disturbed and unconfined at once.
  by_cases hp : w.client.phase = .connected
  · have hn : Guarded c (w.noted (.replays frame)) := by
      have hu : Undisturbed (w.noted (.replays frame)).history ↔ Undisturbed w.history := by
        unfold World.noted
        rw [undisturbed_replays]
        exact ⟨fun hh => hh.2, fun hh => ⟨hp, hh⟩⟩
      refine ⟨h.toUsable.replayed, ?_, fun _ _ => hp⟩
      rw [hu, h.matched]
      exact ⟨fun hh => ⟨⟨nofun, nofun⟩, hh⟩, fun hh => hh.2⟩
    exact hn.sent (.inl hp)
  · have hhistory : ((w.noted (.replays frame)).sent net frame).history =
        ⟨w.client, w.clock, .sends link frame⟩ :: (w.noted (.replays frame)).history := World.sent_history hl
    have hdisturbed : ¬Undisturbed ((w.noted (.replays frame)).sent net frame).history := by
      rw [hhistory, undisturbed_cons]
      rintro ⟨-, hu⟩
      exact hp (undisturbed_replays.mp hu).1
    refine ⟨⟨(h.noted _).sent frame, ?_, ?_⟩, ?_, ?_⟩
    · rw [World.sent_client]
      exact h.known
    · rw [World.sent_client]
      exact fun hc => absurd hc hp
    · refine ⟨fun hu => absurd hu hdisturbed, ?_⟩
      rw [hhistory]
      exact fun hthroughout => absurd (hthroughout.1.sends link frame rfl).1 hp
    · exact fun hu => absurd hu hdisturbed

theorem Going.replayed (h : Going c w) {frame : Octets} : Going c ((w.noted (.replays frame)).sent net frame) := by
  cases hl : w.client.link with
  | some link =>
    rcases h.either with hg | ⟨-, -, hnone⟩
    · exact (hg.replayed hl).going
    · exact nomatch hl.symm.trans hnone
  | none =>
    have hp : w.client.phase ≠ .connected := by
      intro hp
      obtain ⟨link, hl'⟩ := h.connected hp
      exact nomatch hl.symm.trans hl'
    have hsame : (w.noted (.replays frame)).sent net frame = w.noted (.replays frame) := World.sent_of_none hl
    rw [hsame]
    refine ⟨h.toUsable.replayed, .inr ⟨?_, hp, hl⟩⟩
    exact fun hu => hp (undisturbed_replays.mp hu).1

/-- The end of a replay brings it back under the law. -/
theorem Going.ended (h : Going c w) {url : Octets} : Guarded c (w.started.noted (.publishes (.connected url))) := by
  have hu : Undisturbed (w.started.noted (.publishes (.connected url))).history ↔
      w.client.phase = .connected ∧ Undisturbed w.history := undisturbed_opening
  refine ⟨⟨(h.paced (Heartbeat.steady_start _)).noted _, h.known, ?_⟩, ?_, ?_⟩
  · intro hp link hl
    exact (h.opened hp link hl).cons
  · rw [hu]
    constructor
    · rintro ⟨hp, hundisturbed⟩
      rcases h.either with hg | ⟨hn, -, -⟩
      · exact ⟨⟨nofun, fun _ _ => ⟨fun _ => hp, fun _ => rfl⟩⟩, hg.matched.mp hundisturbed⟩
      · exact absurd hundisturbed hn
    · rintro ⟨hnow, hthroughout⟩
      have hp : w.client.phase = .connected := (hnow.connected url rfl).mp rfl
      rcases h.either with hg | ⟨-, hn, -⟩
      · exact ⟨hp, hg.matched.mpr hthroughout⟩
      · exact absurd hp hn
  · exact fun hh _ => (hu.mp hh).1

theorem Guarded.dialed (h : Guarded c w) (hr : Ready w v) : Guarded c (v.dialed net) := by
  have hs : Sound c (v.dialed net) := h.toSound.dialed hr
  have he : Extends Deed.IsMute w.history (v.dialed net).history := hr.history_eq ▸ World.extends_dialed
  by_cases hm : ∃ link, (net.create v.outside).1 = .ok (some link)
  · obtain ⟨link, hm⟩ := hm
    rw [World.dialed_of_link hm] at hs he ⊢
    refine h.away hs he nofun ?_ ?_
    · exact fun id hid => hr.watchlist_eq ▸ hid
    · exact fun hb => ⟨hr.heartbeat_eq ▸ hb, hr.phase_ne.2⟩
  · rw [World.dialed_of_no_link hm] at hs he ⊢
    refine h.away hs he nofun ?_ ?_
    · exact fun id hid => hr.watchlist_eq ▸ hid
    · exact fun hb => ⟨hr.heartbeat_eq ▸ hb, hr.phase_ne.2⟩

/-- Only a connected client without a heartbeat leads to one. -/
def Beats (w v : World τ) : Prop := v.Pending → w.Pending

theorem Beats.of_phase (h : v.client.phase ≠ .connected) : Beats w v := fun hv => absurd hv.1 h

theorem Beats.of_same (hp : v.client.phase = w.client.phase)
    (hr : v.client.heartbeat.running = w.client.heartbeat.running) : Beats w v := by
  intro hv
  unfold World.Pending at hv ⊢
  rw [← hp, ← hr]
  exact hv

theorem Guarded.lapsed {u : World τ} {wait : Wait} (h : Guarded c w) (hs : Sound c u) (hl : Lapses w wait u) :
    Guarded c u ∧ Beats w u := by
  refine ⟨h.of_same hs (hl.history_eq ▸ .refl) ?_ ?_ ?_ ?_ ?_, .of_same ?_ ?_⟩
  all_goals rw [hl.client_eq]
  exact h.known

theorem Beats.sent {frame : Octets} (h : Beats w v) : Beats w (v.sent net frame) := by
  intro hv
  unfold World.Pending at hv
  rw [World.sent_client] at hv
  exact h hv

/-- Confinement is kept by every change that the client makes, if ids are well-formed. -/
def confinement (c : Conduct net) : Discipline c (Use.Names fun id => Utf8.wellFormed id = true) where
  holds := Guarded c
  leads := Beats
  replaying _ _ := Going c
  refl _ := id
  trans hv hu h := hv (hu h)
  fit h := h.fit
  stir h ht := ⟨h.of_same (h.stirred ht) .refl rfl rfl rfl h.known rfl, id⟩
  pass now h := ⟨h.of_same (h.passed now) .refl rfl rfl rfl h.known rfl, id⟩
  plain h hd := ⟨h.of_same (h.noted _) (World.extends_noted hd.isMute) rfl rfl rfl h.known rfl, id⟩
  hear _ _ _ h _ := ⟨h.heard, id⟩
  quote q h hc := ⟨h.of_same (h.quoted q hc) .refl rfl rfl rfl h.known rfl, id⟩
  refresh h := ⟨h.of_same (h.paced Heartbeat.steady_refresh) .refl rfl rfl rfl h.known Heartbeat.refresh_running,
    .of_same rfl Heartbeat.refresh_running⟩
  subscribe := by
    intro w id h hmay hnew _
    exact ⟨h.of_same (h.watching _) .refl rfl rfl rfl (known_add h.known hmay hnew) rfl, fun hv => hv⟩
  subscribeSent := by
    intro w id frame h hmay hnew hp _
    have hn : Guarded c (w.watching fun l => (l.add id).2) :=
      h.of_same (h.watching _) .refl rfl rfl rfl (known_add h.known hmay hnew) rfl
    exact ⟨hn.sent (.inl hp), Beats.sent fun hv => hv⟩
  unsubscribe := by
    intro w name h _ _ _
    exact ⟨h.of_same (h.watching _) .refl rfl rfl rfl (fun id' hid => h.known id' (List.mem_of_mem_erase hid)) rfl,
      fun hv => hv⟩
  unsubscribeSent := by
    intro w name frame h _ _ hp _
    have hn : Guarded c (w.watching fun l => (l.withdraw name).2) :=
      h.of_same (h.watching _) .refl rfl rfl rfl (fun id' hid => h.known id' (List.mem_of_mem_erase hid)) rfl
    exact ⟨hn.sent (.inl hp), Beats.sent fun hv => hv⟩
  lapse := by
    intro w u wait h hl hn
    exact h.lapsed (h.unheeded hl hn) hl
  ping := by
    intro w u wait frame h hl ht he _
    obtain ⟨hu, hbeats⟩ := h.lapsed (h.lapsed_other hl (by simp [ht])) hl
    have hg : Guarded c (u.paced Heartbeat.beat) :=
      hu.of_same (hu.paced Heartbeat.steady_beat) .refl rfl rfl rfl hu.known rfl
    refine ⟨hg.sent ?_, Beats.sent hbeats⟩
    by_cases hp : u.client.phase = .connected
    · exact .inl hp
    · refine .inr fun hundisturbed => hp (hu.beating hundisturbed ?_)
      rw [hl.client_eq]
      exact (Bool.and_eq_true_iff.mp he).2
  disconnect := by
    intro w h
    refine ⟨h.away h.disconnected World.extends_disconnected nofun nofun ?_, .of_phase nofun⟩
    exact fun hb => nomatch World.disconnected_running.symm.trans hb
  close := by
    intro w h hc
    refine ⟨h.heard.away (h.heard.closed hc) World.extends_closed nofun ?_ ?_, .of_phase nofun⟩
    · rw [World.closed_watchlist]
      exact fun _ hid => hid
    · exact fun hb => nomatch World.closed_running.symm.trans hb
  plan := by
    intro w h hp _
    refine ⟨h.away (h.planned hp) World.extends_planned nofun (fun _ hid => hid) ?_, .of_phase nofun⟩
    exact fun hb => ⟨hb, by simp [hp]⟩
  openUnwritten := by
    intro w e h hc hp hf
    obtain ⟨id, hid, hn⟩ := Watchlist.exists_replayFrames_error_iff.mp ⟨e, hf⟩
    exact nomatch hn.symm.trans (h.known id hid)
  openStart := by
    intro w frames h hc hp _
    have he : Extends Deed.IsMute w.history (w.noted (.hears .opened)).opened.history := World.extends_noted trivial
    have hn : Guarded c (w.noted (.hears .opened)).opened := by
      refine ⟨⟨(h.noted _).opened hc hp, h.known, ?_⟩, ?_, fun _ _ => rfl⟩
      · exact fun _ link hl => ⟨_, List.mem_cons_self, rfl, hl, rfl⟩
      · rw [Undisturbed.of_extends he, confined_of_extends he]
        exact h.matched
    exact hn.going
  openFit h := h.fit
  openSent h _ := h.replayed
  openTold := by
    intro w frame frames v link e h hl _ d hd
    -- There is a link to send over, so that the replay has not gone astray, and consumers may be heard.
    have hg : Guarded c v := h.either.resolve_right fun hn => nomatch hl.symm.trans hn.2.2
    have hs : Guarded c ((v.noted (.replays frame)).sent net frame) := hg.replayed hl
    exact ⟨hs.of_same (hs.noted d) (World.extends_noted hd.isMute) rfl rfl rfl hs.known rfl, fun _ hu _ => hu.going⟩
  openEnd h := ⟨h.ended, fun hv => nomatch hv.2⟩
  dial h hr := h.dialed hr
  settle := by
    intro w v u _ _ _ hl _ hp
    exact nomatch World.dialed_phase.symm.trans (hl hp).1
  abandon := by
    intro w v u _ _ h _ _ hp
    refine ⟨h.away (h.abandoned hp) World.extends_abandoned nofun ?_ ?_, .of_phase nofun⟩
    · rw [World.abandoned_watchlist]
      exact fun _ hid => hid
    · rw [World.abandoned_heartbeat]
      exact fun hrunning => ⟨hrunning, by simp [hp]⟩

theorem guarded_start (settings : Settings) (endpoint : Endpoint) {t : τ} (epoch : Instant) (ht : c.Blank t) :
    Guarded c { client := .ofSettings settings endpoint, outside := t, epoch } where
  toSound := sound_start settings endpoint epoch ht
  known _ hid := absurd hid List.not_mem_nil
  opened hp := Phase.noConfusion hp
  matched := ⟨fun _ => trivial, fun _ _ hm => absurd hm List.not_mem_nil⟩
  beating _ hb := Bool.noConfusion hb

/-- Between any two things that are done with a client, all sending has been confined to an open
connection and the heartbeat runs exactly if the client is connected, now and whenever an opening
was told, if and only if the client was still connected whenever a replay went on or came to its
end. -/
theorem confined_iff_undisturbed {s : Stage β (World τ)}
    (h : Reached c (Use.Names fun id => Utf8.wellFormed id = true) s) :
    Throughout Confined s.rest.history ∧
        (s.rest.client.heartbeat.running = true ↔ s.rest.client.phase = .connected) ↔
      Undisturbed s.rest.history := by
  obtain ⟨hg, hn⟩ := (confinement c).settled_of_reached (P := fun w => ¬w.Pending)
    (fun settings endpoint _ epoch ht => ⟨guarded_start settings endpoint epoch ht, nofun⟩)
    (fun hn hk hv => hn (hk.2 hv)) h
  constructor
  · exact fun hh => hg.matched.mpr hh.1
  · intro hu
    refine ⟨hg.matched.mp hu, hg.beating hu, ?_⟩
    intro hp
    cases hb : s.rest.client.heartbeat.running with
    | true => rfl
    | false => exact absurd ⟨hp, hb⟩ hn

namespace ScriptedLinks

/-- A link opens and sends nothing, and nobody hears of it. -/
def unheardRun : Stage Unit (World ScriptedLinks) :=
  played false { moves := [.opens], sendFails := true } {} quietly [.subscribe (octets "A"), .connect]

theorem unheardRun_confined :
    Throughout Confined unheardRun.rest.history ∧ unheardRun.rest.client.heartbeat.running = true := by
  have hs : Reached (conduct false) (Use.Names fun id => Utf8.wellFormed id = true) unheardRun :=
    reached_played (conduct_blank (by decide) rfl (by decide)) consumer_quietly (by decide)
  have hundisturbed : Undisturbed unheardRun.rest.history := by decide +kernel
  have hp : unheardRun.rest.client.phase = .connected := by decide +kernel
  obtain ⟨hthroughout, hbeats⟩ := (confined_iff_undisturbed hs).mpr hundisturbed
  exact ⟨hthroughout, hbeats.mpr hp⟩

def disconnecting : Event → Step (Stage Unit (World ScriptedLinks)) Unit :=
  Stage.publish fun _ _ => Client.disconnect network quietly

/-- A link opens, the first frame of the replay is not sent, and whoever hears of this disconnects
the client. -/
def disturbedRun : Stage Unit (World ScriptedLinks) :=
  played false { sendFails := true } { slots := [{ id := 1, kind := .error, body := () }] } disconnecting
    [.subscribe (octets "A"), .connect, .report 0 0 .opened]

theorem disturbedRun_not_confined :
    Reached (conduct false) (Use.Names fun id => Utf8.wellFormed id = true) disturbedRun ∧
      ¬(disturbedRun.rest.client.heartbeat.running = true ↔ disturbedRun.rest.client.phase = .connected) := by
  have hemit : Consumer (conduct false) (Use.Names fun id => Utf8.wellFormed id = true) disconnecting :=
    consumer_quietly.hearing fun _ _ => .act .disconnect trivial
  refine ⟨reached_played (conduct_blank (by decide) rfl (by decide)) hemit (by decide), ?_⟩
  decide +kernel

end ScriptedLinks

end QuoteFeed
