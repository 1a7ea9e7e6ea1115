import QuoteFeed.Proofs.History
import QuoteFeed.Proofs.Lifecycle

/-!
The wire agrees with the watchlist: what the frames sent over the current link come to is the list
of the instruments that are wanted, in order, as long as no sending fails.
-/

namespace QuoteFeed

variable {β τ : Type} {net : Network τ} {c : Conduct net} {w v : World τ}

/-- What sending and opening owe to what came before: frames go over open links, ask for what the
link has not been asked for, give up what it has, and an opening is told once the link has been
asked for every instrument. -/
structure WireLaw (m : Moment) (rest : List Moment) : Prop where
  opened : ∀ link frame, m.deed = .sends link frame → Opened link m.client.attempt rest
  request : ∀ link frame, m.deed = .sends link frame → ∃ r, Request.ofFrame? frame = some r ∧
    (∀ id, r = .subscribe id → id ∉ wanted link rest) ∧ (∀ id, r = .unsubscribe id → id ∈ wanted link rest)
  connected : ∀ url, m.deed = .publishes (.connected url) →
    ∃ link, m.client.link = some link ∧ wanted link rest = m.client.watchlist.ids

/-- Only links that have reported to somebody have been sent anything. -/
def Served (c : Conduct net) (w : World τ) : Prop :=
  ∀ m ∈ w.history, ∀ link frame, m.deed = .sends link frame → c.attempts link w.outside ≠ []

theorem Served.noted (h : Served c w) {d : Deed} (hd : ∀ link frame, d ≠ .sends link frame) : Served c (w.noted d) := by
  intro m hm link frame hs
  rcases List.mem_cons.mp hm with rfl | hm
  · exact absurd hs (hd link frame)
  · exact h m hm link frame hs

theorem Served.sent (h : Served c w) (hs : Sound c w) {frame : Octets} : Served c (w.sent net frame) := by
  intro m hm link frame' hd
  rw [alike_sent.attempts link]
  cases hl : w.client.link with
  | none =>
    rw [World.sent_of_none hl] at hm
    exact h m hm link frame' hd
  | some current =>
    rw [World.sent_history hl] at hm
    rcases List.mem_cons.mp hm with rfl | hm
    · obtain ⟨rfl, -⟩ := Deed.sends.inj hd
      exact hs.attempts_ne_nil hl
    · exact h m hm link frame' hd

/-- Whenever consumers are heard, an open link has been asked for the watchlist, and a link that has
yet to open for nothing. -/
structure Mirrored (c : Conduct net) (w : World τ) : Prop extends Sound c w where
  known : ∀ id ∈ w.client.watchlist.ids, Utf8.wellFormed id = true
  beating : w.client.heartbeat.running = true → w.client.phase = .connected
  agreed : w.client.phase = .connected → ∀ link, w.client.link = some link →
    wanted link w.history = w.client.watchlist.ids ∧ Opened link w.client.attempt w.history
  silent : w.client.phase = .connecting → ∀ link, w.client.link = some link → Silent link w.history
  used : Served c w
  lawful : Throughout WireLaw w.history

theorem wireLaw_of_mute {m : Moment} {rest : List Moment} (h : m.deed.IsMute) : WireLaw m rest := by
  refine ⟨?_, ?_, ?_⟩
  · intro link frame hs
    rw [hs] at h
    exact h.elim
  · intro link frame hs
    rw [hs] at h
    exact h.elim
  · intro url hs
    rw [hs] at h
    exact absurd rfl h

/-- A link that has never reported to anybody has never been sent anything. -/
theorem Mirrored.silent_of_attempts (h : Mirrored c w) {link : Nat} (ha : c.attempts link w.outside = []) :
    Silent link w.history :=
  fun m hm frame hs => h.used m hm link frame hs ha

/-- The law is kept where nothing is sent, if the client is connected to the same link for the same
instruments, or not at all. -/
theorem Mirrored.extend (h : Mirrored c w) (hs : Sound c v) (he : Extends Deed.IsMute w.history v.history)
    (hknown : ∀ id ∈ v.client.watchlist.ids, Utf8.wellFormed id = true)
    (hbeating : v.client.heartbeat.running = true → v.client.phase = .connected)
    (hagreed : v.client.phase = .connected → w.client.phase = .connected ∧ v.client.link = w.client.link ∧
      v.client.attempt = w.client.attempt ∧ v.client.watchlist.ids = w.client.watchlist.ids)
    (hsilent : v.client.phase = .connecting → ∀ link, v.client.link = some link → Silent link w.history)
    (hattempts : ∀ link, c.attempts link v.outside = [] → c.attempts link w.outside = []) : Mirrored c v where
  toSound := hs
  known := hknown
  beating := hbeating
  agreed := by
    intro hp link hl
    obtain ⟨hw, hlink, hattempt, hids⟩ := hagreed hp
    obtain ⟨hwanted, hopened⟩ := h.agreed hw link (hlink ▸ hl)
    rw [wanted_extend he, hids, hattempt]
    exact ⟨hwanted, hopened.extend he⟩
  silent hp link hl := (hsilent hp link hl).extend he
  used := by
    intro m hm link frame hd ha
    rcases he.mem hm with hold | hmute
    · exact h.used m hold link frame hd (hattempts link ha)
    · rw [hd] at hmute
      exact hmute
  lawful := h.lawful.extend (fun _ _ hmute => wireLaw_of_mute hmute) he

/-- The law does not depend on anything but where the client stands and what links have reported to. -/
theorem Mirrored.of_same (h : Mirrored c w) (hs : Sound c v) (he : Extends Deed.IsMute w.history v.history)
    (hphase : v.client.phase = w.client.phase) (hlink : v.client.link = w.client.link)
    (hattempt : v.client.attempt = w.client.attempt) (hids : v.client.watchlist.ids = w.client.watchlist.ids)
    (hrunning : v.client.heartbeat.running = w.client.heartbeat.running) (ho : c.Alike w.outside v.outside) :
    Mirrored c v := by
  refine h.extend hs he ?_ ?_ ?_ ?_ ?_
  · rw [hids]
    exact h.known
  · rw [hrunning, hphase]
    exact h.beating
  · intro hp
    exact ⟨hphase ▸ hp, hlink, hattempt, hids⟩
  · rw [hphase, hlink]
    exact h.silent
  · intro link ha
    rw [← ho.attempts link]
    exact ha

theorem Mirrored.heard (h : Mirrored c w) {r : Report} : Mirrored c (w.noted (.hears r)) :=
  h.of_same (h.noted _) (World.extends_noted trivial) rfl rfl rfl rfl rfl (c.alike_refl _)

/-- A client that is neither connecting nor connected has nothing to agree with. -/
theorem Mirrored.away (h : Mirrored c w) (hs : Sound c v) (he : Extends Deed.IsMute w.history v.history)
    (hconnecting : v.client.phase ≠ .connecting) (hconnected : v.client.phase ≠ .connected)
    (hids : ∀ id ∈ v.client.watchlist.ids, id ∈ w.client.watchlist.ids)
    (hrunning : v.client.heartbeat.running = false)
    (hattempts : ∀ link, c.attempts link v.outside = c.attempts link w.outside) : Mirrored c v := by
  refine h.extend hs he (fun id hid => h.known id (hids id hid)) ?_ (fun hp => absurd hp hconnected)
    (fun hp => absurd hp hconnecting) ?_
  · intro hr
    rw [hrunning] at hr
    exact nomatch hr
  · intro link ha
    rw [← hattempts link]
    exact ha

theorem Mirrored.resting (h : Mirrored c w) (hp : w.client.phase ≠ .connected) :
    w.client.heartbeat.running = false := by
  cases hb : w.client.heartbeat.running with
  | true => exact absurd (h.beating hb) hp
  | false => rfl

/-- In a replay, an open link has been asked for the first instruments of the watchlist, and the
frames to go ask for the others. -/
structure Replaying (c : Conduct net) (frames : List Octets) (w : World τ) : Prop extends Sound c w where
  known : ∀ id ∈ w.client.watchlist.ids, Utf8.wellFormed id = true
  open_ : w.client.phase = .connected
  asking : ∀ link, w.client.link = some link → Opened link w.client.attempt w.history ∧
    ∃ todo, w.client.watchlist.ids = wanted link w.history ++ todo ∧ todo.mapM Watchlist.subscribeFrame = .ok frames
  used : Served c w
  lawful : Throughout WireLaw w.history

theorem Mirrored.replaying (h : Mirrored c w) (hc : c.Current w) (hp : w.client.phase = .connecting)
    {frames : List Octets} (hf : w.client.watchlist.replayFrames = .ok frames) :
    Replaying c frames (w.noted (.hears .opened)).opened := by
  have hs : Sound c (w.noted (.hears .opened)) := h.noted _
  refine ⟨hs.opened hc hp, h.known, rfl, ?_, h.used.noted nofun, ?_⟩
  · intro link hl
    have hsilent : Silent link w.history := h.silent hp link hl
    refine ⟨⟨_, List.mem_cons_self, rfl, hl, rfl⟩, w.client.watchlist.ids, ?_, hf⟩
    have hw : wanted link (w.noted (.hears .opened)).opened.history = [] :=
      wanted_of_silent (hsilent.extend (World.extends_noted trivial))
    rw [hw]
    rfl
  · exact ⟨wireLaw_of_mute trivial, h.lawful⟩

/-- The next frame of a replay asks for the next instrument. -/
theorem Replaying.sent {frame : Octets} {frames : List Octets} (h : Replaying c (frame :: frames) w) :
    Replaying c frames ((w.noted (.replays frame)).sent net frame) := by
  obtain ⟨link, hl⟩ := h.connected h.open_
  obtain ⟨hopened, todo, hids, hframes⟩ := h.asking link hl
  -- The frame is that of the first instrument still to do, which is new to the link as no instrument is listed twice.
  cases todo with
  | nil => exact nomatch hframes
  | cons id todo =>
    obtain ⟨_, _, hid, htodo, heq⟩ := Watchlist.mapM_cons_ok hframes
    obtain ⟨rfl, rfl⟩ := List.cons.inj heq
    have hr := Watchlist.ofFrame_subscribeFrame hid
    have hnew : id ∉ wanted link w.history := by
      have hn := w.client.watchlist.nodup
      rw [hids] at hn
      intro hmem
      exact (List.nodup_append.mp hn).2.2 id hmem id (List.mem_cons_self) rfl
    have hwanted : wanted link (w.noted (.replays frame)).history = wanted link w.history := wanted_cons nofun
    have hopened' : Opened link w.client.attempt (w.noted (.replays frame)).history := hopened.cons
    have hhistory : ((w.noted (.replays frame)).sent net frame).history =
        ⟨w.client, w.clock, .sends link frame⟩ :: (w.noted (.replays frame)).history := World.sent_history hl
    have hused : Served c (w.noted (.replays frame)) := h.used.noted nofun
    refine ⟨(h.noted _).sent frame, ?_, ?_, ?_, hused.sent (h.noted _), ?_⟩
    · rw [World.sent_client]
      exact h.known
    · rw [World.sent_client]
      exact h.open_
    · rw [World.sent_client]
      intro link' hl'
      obtain rfl : link = link' := Option.some.inj (hl.symm.trans hl')
      rw [hhistory, wanted_sends hr, hwanted]
      refine ⟨hopened'.cons, todo, ?_, htodo⟩
      show w.client.watchlist.ids = (wanted link w.history ++ [id]) ++ todo
      rw [hids, List.append_assoc]
      rfl
    · rw [hhistory]
      refine ⟨⟨?_, ?_, nofun⟩, ⟨nofun, nofun, nofun⟩, h.lawful⟩
      · intro link' frame' hd
        obtain ⟨rfl, -⟩ := Deed.sends.inj hd
        exact hopened'
      · intro link' frame' hd
        obtain ⟨rfl, rfl⟩ := Deed.sends.inj hd
        rw [hwanted]
        refine ⟨_, hr, ?_, nofun⟩
        rintro _ ⟨⟩
        exact hnew

/-- A replay that is over has asked for every instrument, and the opening may be told. -/
theorem Replaying.ended (h : Replaying c [] w) {url : Octets} :
    Mirrored c (w.started.noted (.publishes (.connected url))) := by
  have hagreed : ∀ link, w.client.link = some link →
      wanted link w.history = w.client.watchlist.ids ∧ Opened link w.client.attempt w.history := by
    intro link hl
    obtain ⟨hopened, todo, hids, hframes⟩ := h.asking link hl
    cases todo with
    | nil => exact ⟨by simpa using hids.symm, hopened⟩
    | cons id todo =>
      obtain ⟨_, _, _, _, heq⟩ := Watchlist.mapM_cons_ok hframes
      exact nomatch heq
  obtain ⟨link, hl⟩ := h.connected h.open_
  have hused : Served c w.started := h.used
  refine ⟨(h.paced (Heartbeat.steady_start _)).noted _, h.known, fun _ => h.open_, ?_, ?_, hused.noted nofun, ?_⟩
  · intro _ link' hl'
    obtain ⟨hwanted, hopened⟩ := hagreed link' hl'
    have hw : wanted link' (w.started.noted (.publishes (.connected url))).history = wanted link' w.history :=
      wanted_cons nofun
    exact ⟨hw.trans hwanted, hopened.cons⟩
  · intro hc
    exact nomatch hc.symm.trans h.open_
  · refine ⟨⟨nofun, nofun, ?_⟩, h.lawful⟩
    intro _ _
    exact ⟨link, hl, (hagreed link hl).1⟩

/-- A link that is made for an attempt has not been sent anything. -/
theorem Mirrored.dialed (h : Mirrored c w) (hfresh : c.Fresh) (hr : Ready w v) : Mirrored c (v.dialed net) := by
  have hs : Sound c (v.dialed net) := h.toSound.dialed hr
  have he : Extends Deed.IsMute w.history (v.dialed net).history := hr.history_eq ▸ World.extends_dialed
  have hrunning : w.client.heartbeat.running = false := h.resting hr.phase_ne.2
  rw [← hr.heartbeat_eq] at hrunning
  have hknown : ∀ id ∈ v.client.watchlist.ids, Utf8.wellFormed id = true := by
    rw [hr.watchlist_eq]
    exact h.known
  have hbefore : ∀ l, c.attempts l (v.asked net).outside = c.attempts l w.outside := by
    intro l
    rw [← hr.outside_eq]
    exact (c.alike_create v.outside).attempts l
  by_cases hm : ∃ link, (net.create v.outside).1 = .ok (some link)
  · obtain ⟨link, hm⟩ := hm
    rw [World.dialed_of_link hm] at hs he ⊢
    have hafter : ∀ l, c.attempts l ((v.asked net).linked net link).outside =
        c.attempts l (net.attach link (v.client.attempt + 1) (v.asked net).outside) :=
      (c.alike_dial _ _ _).attempts
    refine h.extend hs he hknown (fun hb => nomatch hrunning.symm.trans hb) nofun ?_ ?_
    · rintro _ _ ⟨⟩
      exact h.silent_of_attempts (hr.outside_eq ▸ hfresh _ _ hm)
    · intro l ha
      rw [hafter] at ha
      by_cases hl : l = link
      · subst hl
        rw [show (v.asked net).outside = (net.create v.outside).2.2 from rfl, c.attempts_attach _ hm] at ha
        exact nomatch ha
      · rw [c.attempts_attach_of_ne _ _ hl, hbefore] at ha
        exact ha
  · rw [World.dialed_of_no_link hm] at hs he ⊢
    refine h.extend hs he hknown (fun hb => nomatch hrunning.symm.trans hb) nofun ?_ ?_
    · intro _ link hl
      have hnone : v.client.link = none := (h.ready hr).2.1
      exact nomatch hnone.symm.trans hl
    · intro l ha
      rw [← hbefore]
      exact ha

theorem Deed.IsPlain.isMute {d : Deed} (h : d.IsPlain) : d.IsMute := by
  cases d with
  | connects => trivial
  | measures => trivial
  | publishes e => exact h
  | _ => exact h.elim

theorem known_add {l : Watchlist} {id : Octets} (h : ∀ id ∈ l.ids, Utf8.wellFormed id = true)
    (hid : Utf8.wellFormed id = true) (hnew : id ∉ l.ids) : ∀ id' ∈ (l.add id).2.ids, Utf8.wellFormed id' = true := by
  intro id' hmem
  rw [Watchlist.ids_add hnew] at hmem
  rcases List.mem_append.mp hmem with hold | hlast
  · exact h id' hold
  · obtain rfl := List.mem_singleton.mp hlast
    exact hid

section

variable (emit : Event → Step (Stage β (World τ)) Unit) {s : Stage β (World τ)} {link : Nat} {name : Naming}
  {frame : Octets}

end

namespace ScriptedLinks

end ScriptedLinks

end QuoteFeed
