import QuoteFeed.Proofs.Confinement
import QuoteFeed.Proofs.Settling

/-!
What fails. Links and consumers never make an operation of a client fail; an instrument whose id is
ill-formed does, when it is asked for or given up while the client is connected, and when a link
opens that it is to be asked for over.
-/

namespace QuoteFeed

variable {β τ : Type} {net : Network τ} {c : Conduct net} {may : Use → Prop} {w v : World τ}

theorem Extends.mono {K L : Deed → Prop} {old new : List Moment} (h : Extends K old new) (hKL : ∀ d, K d → L d) :
    Extends L old new := by
  obtain ⟨added, rfl, hadded⟩ := h
  exact ⟨added, rfl, fun m hm => hKL _ (hadded m hm)⟩

/-- What has been done stays done. -/
def Remembers (w v : World τ) : Prop := Extends (fun _ => True) w.history v.history

theorem Remembers.refl : Remembers w w := Extends.refl

theorem Remembers.of_mute (h : Extends Deed.IsMute w.history v.history) : Remembers w v := h.mono fun _ _ => trivial

theorem Remembers.of_eq (h : v.history = w.history) : Remembers w v := by
  unfold Remembers
  rw [h]
  exact .refl

theorem Remembers.noted {d : Deed} (h : Remembers w v) : Remembers w (v.noted d) := h.cons trivial

theorem Remembers.sent {frame : Octets} (h : Remembers w v) : Remembers w (v.sent net frame) := by
  cases hl : v.client.link with
  | none =>
    rw [World.sent_of_none hl]
    exact h
  | some link =>
    unfold Remembers
    rw [World.sent_history hl]
    exact Extends.cons h trivial

theorem Remembers.trans {u : World τ} (h : Remembers w v) (h' : Remembers v u) : Remembers w u := Extends.trans h h'

theorem Remembers.dialed (hr : Ready w v) : Remembers w (v.dialed net) :=
  (Remembers.of_eq hr.history_eq).trans (.of_mute World.extends_dialed)

theorem fit_dropped (h : c.fit w.outside) : c.fit (w.dropped net).outside := by
  unfold World.dropped
  split
  next => exact h
  next => exact c.fit_detach _ h

theorem fit_retired (h : c.fit w.outside) : c.fit (w.retired net).outside := by
  unfold World.retired
  split
  next => exact h
  next => exact (c.alike_close _ _).fit (fit_dropped h)

theorem fit_dialed (h : c.fit w.outside) : c.fit (w.dialed net).outside := by
  have ha : c.fit (net.create w.outside).2.2 := (c.alike_create _).fit h
  by_cases hm : ∃ link, (net.create w.outside).1 = .ok (some link)
  · obtain ⟨link, hm⟩ := hm
    rw [World.dialed_of_link hm]
    exact (c.alike_dial _ _ _).fit (c.fit_attach _ _ ha)
  · rw [World.dialed_of_no_link hm]
    exact ha

/-- Links stay fit and deeds are remembered, whatever happens. -/
def recording (c : Conduct net) (may : Use → Prop) : Discipline c may where
  holds w := c.fit w.outside
  leads := Remembers
  replaying w _ v := c.fit v.outside ∧ Remembers w v
  refl _ := .refl
  trans := .trans
  fit h := h
  stir h ht := ⟨ht.fit h, .refl⟩
  pass _ h := ⟨h, .refl⟩
  plain h _ := ⟨h, Remembers.refl.noted⟩
  hear _ _ _ h _ := ⟨h, Remembers.refl.noted⟩
  quote _ h _ := ⟨h, .refl⟩
  refresh h := ⟨h, .refl⟩
  subscribe h _ _ _ := ⟨h, .refl⟩
  subscribeSent h _ _ _ _ := ⟨alike_sent.fit h, Remembers.sent .refl⟩
  unsubscribe h _ _ _ := ⟨h, .refl⟩
  unsubscribeSent h _ _ _ _ := ⟨alike_sent.fit h, Remembers.sent .refl⟩
  lapse h hl _ := ⟨hl.outside_eq ▸ h, .of_eq hl.history_eq⟩
  ping h hl _ _ _ := ⟨alike_sent.fit (hl.outside_eq ▸ h), Remembers.sent (.of_eq hl.history_eq)⟩
  disconnect h := ⟨fit_retired (w := World.paced _ _) h, .of_mute World.extends_disconnected⟩
  close h _ := ⟨fit_dropped (w := World.paced _ _) h, Remembers.refl.noted.trans (.of_mute World.extends_closed)⟩
  plan h _ _ := ⟨(c.alike_sample _ _ _).fit h, .of_mute World.extends_planned⟩
  openUnwritten h _ _ _ := ⟨h, Remembers.refl.noted⟩
  openStart h _ _ _ := ⟨h, Remembers.refl.noted⟩
  openFit h := h.1
  openSent h _ := ⟨alike_sent.fit h.1, h.2.noted.sent⟩
  openTold h _ _ _ _ := ⟨alike_sent.fit h.1, fun _ hu hl => ⟨hu, h.2.noted.sent.noted.trans hl⟩⟩
  openEnd h := ⟨h.1, Extends.cons h.2 trivial⟩
  dial h hr := fit_dialed (hr.outside_eq ▸ h)
  settle _ hr _ hl _ := (Remembers.dialed hr).trans hl
  abandon _ hr hu hl _ _ := ⟨fit_retired hu, ((Remembers.dialed hr).trans hl).trans (.of_mute World.extends_abandoned)⟩

theorem fit_of_reached {s : Stage β (World τ)} (h : Reached c may s) : c.fit s.rest.outside :=
  ((recording c may).settled_of_reached (P := fun _ => True) (fun _ _ _ _ ht => ⟨ht.fit, trivial⟩)
    (fun _ _ => trivial) h).1

/-- After the first world, a replay has turned to all of some frames in order, and then the opening
has been told with the heartbeat running. -/
def Completes (frames : List Octets) (w v : World τ) : Prop :=
  ∃ later opening earlier url, v.history = later ++ opening :: earlier ++ w.history ∧
    opening.deed = .publishes (.connected url) ∧ opening.client.heartbeat.running = true ∧
    List.Sublist (frames.map Deed.replays).reverse (earlier.map Moment.deed)

/-- A replay of some frames has come from the first world to the second, with the rest of them to go. -/
structure Replays (c : Conduct net) (frames : List Octets) (w : World τ) (rest : List Octets) (v : World τ) : Prop where
  fit : c.fit v.outside
  turned : ∃ earlier done, v.history = earlier ++ w.history ∧ frames = done ++ rest ∧
    List.Sublist (done.map Deed.replays).reverse (earlier.map Moment.deed)

variable {s : Stage β (World τ)} {emit : Event → Step (Stage β (World τ)) Unit}

theorem Replays.turn {frame : Octets} {frames rest : List Octets} {u : World τ}
    (h : Replays c frames w (frame :: rest) v) (hu : (recording c may).Keeps (v.noted (.replays frame)) u) :
    Replays c frames w rest u := by
  obtain ⟨earlier, done, hv, hframes, hsub⟩ := h.turned
  obtain ⟨added, hadded, -⟩ := hu.2
  refine ⟨hu.1, added ++ ⟨v.client, v.clock, .replays frame⟩ :: earlier, done ++ [frame], ?_, ?_, ?_⟩
  · rw [hadded, List.append_assoc, List.cons_append, ← hv]
    rfl
  · rw [hframes, List.append_assoc]
    rfl
  · rw [List.map_append, List.reverse_append, List.map_append]
    exact (hsub.cons_cons (.replays frame)).trans (List.sublist_append_right _ _)

/-- An opening that finds all instruments well-formed is carried through, whatever consumers do. -/
theorem handleOpen_completes (h : (recording c may).Heeds emit) (hfit : c.fit s.rest.outside)
    (hp : s.rest.client.phase = .connecting) {frames : List Octets}
    (hf : s.rest.client.watchlist.replayFrames = .ok frames) :
    (Client.handleOpen net emit).Ends s (fun _ t => Completes frames s.rest t.rest) fun _ _ => False := by
  simp only [Client.handleOpen, Step.ends_bind, Client.ends_current, Step.ends_ite, Step.ends_pure, Client.ends_change,
    Client.ends_changeHeartbeat, Step.ends_ofExcept, hf, Except.mapError, Except.ok.injEq, reduceCtorEq, false_implies,
    implies_true, and_true]
  refine ⟨?_, fun hn => absurd hp hn⟩
  rintro _ _ rfl
  -- Consumers may do anything in between, but what has been turned to stays in the history in order.
  refine (Step.ends_forM (P := fun rest t => Replays c frames s.rest rest t.rest) ?_ ?_).mono ?_ fun _ _ he => he
  · exact ⟨hfit, [], [], rfl, rfl, .refl _⟩
  · intro frame rest t ht
    have hs : (recording c may).Keeps (t.rest.noted (.replays frame))
        ((t.rest.noted (.replays frame)).sent net frame) := ⟨alike_sent.fit ht.fit, Remembers.sent .refl⟩
    simp only [Step.ends_bind, Client.ends_remember]
    exact (h.send (E := fun _ _ => False) (s := { t with rest := t.rest.noted (.replays frame) }) ht.fit hs).mono
      (fun _ u hu => ht.turn hu) fun _ _ he => he
  · intro _ t ht
    obtain ⟨earlier, done, hv, hframes, hsub⟩ := ht.turned
    obtain rfl : frames = done := by simpa using hframes
    let opening := t.rest.started.noted (.publishes (.connected t.rest.client.endpoint.url))
    have hk : (recording c may).Keeps opening opening := .refl ht.fit
    refine (h.tell (w := opening) hk).mono ?_ fun _ _ he => he
    intro _ u hu
    obtain ⟨later, hlater, -⟩ := hu.2
    refine ⟨later, ⟨t.rest.started.client, t.rest.started.clock, _⟩, earlier, t.rest.client.endpoint.url, ?_, rfl, rfl,
      hsub⟩
    rw [hlater, List.append_assoc, List.cons_append, ← hv]
    rfl

theorem sendWritten_fails {e : Json.Error} {P : Unit → Stage β (World τ) → Prop} :
    (Client.sendWritten net emit (.error e)).Ends s P fun _ _ => True := by
  simp only [Client.sendWritten, Except.mapError, Step.ofExcept, Step.ends_bind, Step.ends_throw]

theorem handleOpen_fails (hp : s.rest.client.phase = .connecting) {e : Json.Error}
    (hf : s.rest.client.watchlist.replayFrames = .error e) :
    (Client.handleOpen net emit).Ends s (fun _ _ => False) fun _ t => t.rest = s.rest.opened := by
  simp only [Client.handleOpen, Step.ends_bind, Client.ends_current, Client.ends_change, Step.ends_ite, hp, hf,
    Except.mapError, Step.ofExcept, Step.ends_throw, not_true_eq_false, false_implies, and_true, true_implies]
  rfl

theorem Use.Breaks.fails {op : Use} (h : op.Breaks c s.rest) :
    (op.perform c emit).Ends s (fun _ _ => False) fun _ _ => True := by
  cases op with
  | connect => exact h.elim
  | disconnect => exact h.elim
  | subscribe id =>
    obtain ⟨hp, hm, hn⟩ := h
    have hf : Watchlist.subscribeFrame id = .error .wrongType := Watchlist.marketFrame_error hn
    simp only [Use.perform, Client.subscribe, Watchlist.add, hm, dif_neg, not_false_eq_true, Step.ends_bind,
      Client.ends_current, Client.ends_change, Step.ends_ite, hp, hf, not_true_eq_false, false_implies, and_true,
      true_implies]
    exact sendWritten_fails
  | unsubscribe name =>
    obtain ⟨hp, hm, hn⟩ := h
    have hf : Watchlist.unsubscribeFrame (name.read (s.rest.client.watchlist.withdraw name).2) = .error .wrongType :=
      Watchlist.marketFrame_error hn
    simp only [Use.perform, Client.unsubscribe, Step.ends_bind, Client.ends_current]
    rw [Watchlist.withdraw_of_mem hm]
    simp only [Step.ends_bind, Client.ends_current, Client.ends_change, Step.ends_ite, hp, hf, not_true_eq_false,
      false_implies, and_true, true_implies]
    exact sendWritten_fails
  | report link index r =>
    obtain ⟨rfl, ha, hp, hn⟩ := h
    obtain ⟨e, hf⟩ := Watchlist.exists_replayFrames_error_iff.mpr hn
    simp only [Use.perform, Step.ends_bind, Step.ends_get, ha, Client.receive, Client.ends_current,
      Client.ends_remember, if_true]
    exact (handleOpen_fails (s := { s with rest := s.rest.noted (.hears .opened) }) hp hf).mono (fun _ _ hh => hh)
      fun _ _ _ => trivial

/-- Whatever is done with a client fails exactly if it breaks, and the end of a wait does not fail;
an opening, wherever it is heard, is carried through unless an instrument is ill-formed: then it
fails, and leaves the client connected and nothing else done. All of this comes to an end if what
consumers do does. -/
theorem fails_iff_breaks (hemit : Consumer c (fun _ => True) emit) (hs : Reached c (fun _ => True) s) :
    (∀ (op : Use) (r : Except Failure Unit) (t : Stage β (World τ)), (op.perform c emit).outcome s = some (r, t) →
      ((∃ e, r = .error e) ↔ op.Breaks c s.rest)) ∧
    (∀ wait w (r : Except Failure Unit) (t : Stage β (World τ)), Lapses s.rest wait w →
      (Client.fire net emit wait).outcome { s with rest := w } = some (r, t) → r = .ok ()) ∧
    (∀ (u : Stage β (World τ)) (r : Except Failure Unit) (t : Stage β (World τ)), c.fit u.rest.outside →
      u.rest.client.phase = .connecting → (Client.handleOpen net emit).outcome u = some (r, t) →
        ((∃ e, r = .error e) ↔ ∃ id ∈ u.rest.client.watchlist.ids, Utf8.wellFormed id = false) ∧
        (∀ e, r = .error e → t.rest = u.rest.opened) ∧
        (r = .ok () → ∃ frames, u.rest.client.watchlist.replayFrames = .ok frames ∧ Completes frames u.rest t.rest)) ∧
    ((∀ e, (emit e).Settles) → (∀ op : Use, (op.perform c emit).Settles) ∧
      (∀ wait, (Client.fire net emit wait).Settles) ∧ (Client.handleOpen net emit).Settles) := by
  have hheeds : (recording c fun _ => True).Heeds emit := Discipline.heeds_of_consumer _ hemit
  have hk : (recording c fun _ => True).Keeps s.rest s.rest := .refl (fit_of_reached hs)
  refine ⟨?_, ?_, ?_, ?_⟩
  · intro op r t ho
    constructor
    · rintro ⟨e, rfl⟩
      have hends : (op.perform c emit).Ends s (fun _ t => (recording c fun _ => True).Keeps s.rest t.rest) fun _ t =>
          (recording c fun _ => True).Keeps s.rest t.rest ∧ op.Breaks c s.rest := hheeds.perform trivial hk
      exact (hends.failure ho).2
    · intro hb
      cases r with
      | ok a => exact (hb.fails.value ho).elim
      | error e => exact ⟨e, rfl⟩
  · intro wait w r t hl ho
    cases r with
    | ok a => rfl
    | error e =>
      have hends : (Client.fire net emit wait).Ends { s with rest := w }
          (fun _ t => (recording c fun _ => True).Keeps s.rest t.rest) fun _ _ => False := hheeds.fire hk hl
      exact (hends.failure ho).elim
  · intro u r t hfit hp ho
    rw [← Watchlist.exists_replayFrames_error_iff]
    cases hf : u.rest.client.watchlist.replayFrames with
    | ok frames =>
      have hopen := handleOpen_completes hheeds hfit hp hf
      cases r with
      | ok a => exact ⟨⟨nofun, nofun⟩, nofun, fun _ => ⟨frames, rfl, hopen.value ho⟩⟩
      | error j => exact (hopen.failure ho).elim
    | error e =>
      have hopen : (Client.handleOpen net emit).Ends u (fun _ _ => False) fun _ t => t.rest = u.rest.opened :=
        handleOpen_fails hp hf
      cases r with
      | ok a => exact (hopen.value ho).elim
      | error j => exact ⟨⟨fun _ => ⟨e, rfl⟩, fun _ => ⟨j, rfl⟩⟩, fun _ _ => hopen.failure ho, nofun⟩
  · intro hsettles
    exact ⟨Client.settles_perform hsettles, Client.settles_fire hsettles, Client.settles_handleOpen hsettles⟩

namespace ScriptedLinks

/-- An ill-formed instrument is to be asked for over a link that is awaited. -/
def illFormedRun : Stage Unit (World ScriptedLinks) := played false {} {} quietly [.subscribe [0xff], .connect]

theorem illFormedRun_disconnects :
    ∃ t, (Use.disconnect.perform (conduct false) quietly).outcome illFormedRun = some (.ok (), t) := by
  have hs : Reached (conduct false) (fun _ => True) illFormedRun :=
    reached_played (conduct_blank (by decide) rfl (by decide)) consumer_quietly fun _ _ => trivial
  obtain ⟨hfails, -, -, hsettles⟩ := fails_iff_breaks consumer_quietly hs
  obtain ⟨r, t, ho⟩ := (hsettles (Stage.settles_publish fun _ _ => Step.settles_pure ())).1 .disconnect illFormedRun
  cases r with
  | ok a => exact ⟨t, ho⟩
  | error e => exact ((hfails .disconnect _ t ho).mp ⟨e, rfl⟩).elim

theorem illFormedRun_fails_to_open :
    Reached (conduct false) (fun _ => True) illFormedRun ∧
      ∃ t, ((Use.report 0 0 .opened).perform (conduct false) quietly).outcome illFormedRun =
          some (.error (.document .wrongType), t) ∧
        t.rest.client.phase = .connected ∧ t.rest.client.heartbeat.running = false :=
  ⟨reached_played (conduct_blank (by decide) rfl (by decide)) consumer_quietly fun _ _ => trivial, _, rfl, rfl, rfl⟩

end ScriptedLinks

end QuoteFeed
