import QuoteFeed.Proofs.Acts
import QuoteFeed.Proofs.Discipline
import QuoteFeed.Proofs.Requests

/-!
Every operation of a client keeps a discipline, whatever consumers do while they are heard.
-/

namespace QuoteFeed

variable {β τ : Type} {net : Network τ} {c : Conduct net} {may : Use → Prop}

namespace Use

/-- The uses that fail: there is no frame for an instrument that is to be asked for or given up. -/
def Breaks (c : Conduct net) (w : World τ) : Use → Prop
  | subscribe id => w.client.phase = .connected ∧ id ∉ w.client.watchlist.ids ∧ Utf8.wellFormed id = false
  | unsubscribe name => w.client.phase = .connected ∧ name.read w.client.watchlist ∈ w.client.watchlist.ids ∧
      Utf8.wellFormed (name.read (w.client.watchlist.withdraw name).2) = false
  | report link index r => r = .opened ∧ (c.attempts link w.outside)[index]? = some w.client.attempt ∧
      w.client.phase = .connecting ∧ ∃ id ∈ w.client.watchlist.ids, Utf8.wellFormed id = false
  | connect | disconnect => False

end Use

/-- The report of an opening fails, as the instruments have no frames. -/
structure Stranded (w : World τ) (e : Failure) : Prop where
  phase : w.client.phase = .connecting
  failure : ∃ j, w.client.watchlist.replayFrames = .error j ∧ e = .document j

/-- A client that is made starts out with nothing but its settings. -/
theorem Client.eq_ofSettings {settings : Settings} {client : Client} (h : create settings true = .ok client) :
    ∃ endpoint, client = ofSettings settings endpoint := by
  unfold create at h
  cases he : settings.endpoint with
  | error e => simp [he, Except.mapError, bind, Except.bind] at h
  | ok endpoint =>
    refine ⟨endpoint, ?_⟩
    simpa [he, Except.mapError, bind, Except.bind, pure, Except.pure] using h.symm

theorem Lapses.client_eq {w u : World τ} {v : Wait} (h : Lapses w v u) : u.client = w.client := by
  cases h <;> rfl

theorem Lapses.outside_eq {w u : World τ} {v : Wait} (h : Lapses w v u) : u.outside = w.outside := by
  cases h <;> rfl

theorem Lapses.epoch_eq {w u : World τ} {v : Wait} (h : Lapses w v u) : u.epoch = w.epoch := by
  cases h <;> rfl

theorem Lapses.history_eq {w u : World τ} {v : Wait} (h : Lapses w v u) : u.history = w.history := by
  cases h <;> rfl

theorem Ready.outside_eq {w v : World τ} (h : Ready w v) : v.outside = w.outside := by
  cases h with
  | asked => rfl
  | hurried => rfl
  | due hl => exact hl.outside_eq

theorem Ready.history_eq {w v : World τ} (h : Ready w v) : v.history = w.history := by
  cases h with
  | asked => rfl
  | hurried => rfl
  | due hl => exact hl.history_eq

theorem Ready.watchlist_eq {w v : World τ} (h : Ready w v) : v.client.watchlist = w.client.watchlist := by
  cases h with
  | asked => rfl
  | hurried => rfl
  | due hl => rw [hl.client_eq]

theorem Ready.heartbeat_eq {w v : World τ} (h : Ready w v) : v.client.heartbeat = w.client.heartbeat := by
  cases h with
  | asked => rfl
  | hurried => rfl
  | due hl => rw [hl.client_eq]

/-- Only a client that is neither connecting nor connected gets ready. -/
theorem Ready.phase_ne {w v : World τ} (h : Ready w v) :
    w.client.phase ≠ .connecting ∧ w.client.phase ≠ .connected := by
  cases h with
  | asked _ hp => rcases hp with hp | hp <;> simp [hp]
  | hurried _ hp => simp [hp]
  | due _ _ _ hp => simp [hp]

/-- Programs keep what consumers, the world outside and the uses that they may make keep, with a value or
with a failure. -/
theorem Uses.keeps {P : World τ → Prop} {emit : Event → Step (Stage β (World τ)) Unit} {α : Type}
    {x : Step (Stage β (World τ)) α} {s : Stage β (World τ)} (hx : Uses c may emit x)
    (hstir : ∀ {w t}, P w → c.Alike w.outside t → P { w with outside := t })
    (hemit : ∀ e (s : Stage β (World τ)), P s.rest → (emit e).Ends s (fun _ t => P t.rest) fun _ t => P t.rest)
    (hop : ∀ {op}, may op → ∀ s : Stage β (World τ), P s.rest →
      (op.perform c emit).Ends s (fun _ t => P t.rest) fun _ t => P t.rest)
    (hs : P s.rest) : x.Ends s (fun _ t => P t.rest) fun _ t => P t.rest := by
  -- Whatever has been done before a failure has been kept as well, so that a handler may go on from there.
  induction hx generalizing s with
  | pure a => exact Step.ends_pure.mpr hs
  | fail e => exact Step.ends_throw.mpr hs
  | hang => exact Step.ends_exhausted
  | bind _ _ ihx ihf => exact Step.ends_bind.mpr ((ihx hs).mono (fun a _ ht => ihf a ht) fun _ _ he => he)
  | tryCatch _ _ ihx ihh => exact Step.ends_tryCatch.mpr ((ihx hs).mono (fun _ _ ht => ht) fun e _ he => ihh e he)
  | look => exact Step.ends_get.mpr hs
  | arrange f hf =>
    refine Step.ends_modify.mpr ?_
    rw [hf]
    exact hs
  | stir f hf => exact Client.ends_changeOutside.mpr (hstir hs (hf _))
  | publish e => exact hemit e s hs
  | act op hmay => exact hop hmay s hs

namespace Discipline

variable (D : Discipline c may)

/-- The law holds of the second world, to which the first one leads. -/
def Keeps (w v : World τ) : Prop := D.holds v ∧ D.leads w v

/-- Whatever is published, consumers keep the discipline and do not fail. -/
def Heeds (emit : Event → Step (Stage β (World τ)) Unit) : Prop :=
  ∀ e s, D.holds s.rest → (emit e).Ends s (fun _ t => D.Keeps s.rest t.rest) fun _ _ => False

variable {D} {emit : Event → Step (Stage β (World τ)) Unit} {s : Stage β (World τ)} {w : World τ}
  {E : Failure → Stage β (World τ) → Prop}

theorem Keeps.refl (hw : D.holds w) : D.Keeps w w := ⟨hw, D.refl w⟩

theorem Keeps.trans {u v : World τ} (hv : D.Keeps w v) (hu : D.Keeps v u) : D.Keeps w u :=
  ⟨hu.1, D.trans hv.2 hu.2⟩

theorem Keeps.fit {v : World τ} (hv : D.Keeps w v) : c.fit v.outside := D.fit hv.1

theorem Heeds.tell (h : D.Heeds emit) {e : Event} (hs : D.Keeps w (s.rest.noted (.publishes e))) :
    (Client.tell emit e).Ends s (fun _ t => D.Keeps w t.rest) E := by
  simp only [Client.tell, Step.ends_bind, Client.ends_remember]
  refine (h e _ hs.1).mono ?_ fun _ _ he => he.elim
  intro _ t ht
  exact hs.trans ht

/-- An event other than an opening may be told whenever the law holds. -/
theorem Heeds.tell_plain (h : D.Heeds emit) {e : Event} (hs : D.Keeps w s.rest)
    (he : e.kind ≠ .connected) :
    (Client.tell emit e).Ends s (fun _ t => D.Keeps w t.rest) E :=
  h.tell (hs.trans (D.plain hs.1 he))

theorem Heeds.send (h : D.Heeds emit) {frame : Octets} (hfit : c.fit s.rest.outside)
    (hs : D.Keeps w (s.rest.sent net frame)) :
    (Client.send net emit frame).Ends s (fun _ t => D.Keeps w t.rest) E := by
  refine Client.send_ends hfit (fun _ => hs) ?_
  intro link e t _ _ ht
  refine h.tell_plain ?_ (by simp [Event.kind])
  rw [ht]
  exact hs

theorem Heeds.sendWritten (h : D.Heeds emit) {frame? : Except Json.Error Octets} (hfit : c.fit s.rest.outside)
    (hframe : ∀ frame, frame? = .ok frame → D.Keeps w (s.rest.sent net frame))
    (hnone : ∀ j, frame? = .error j → D.Keeps w s.rest) :
    (Client.sendWritten net emit frame?).Ends s (fun _ t => D.Keeps w t.rest) fun _ t =>
      D.Keeps w t.rest ∧ ∃ j, frame? = .error j := by
  cases frame? with
  | ok frame =>
    simp only [Client.sendWritten, Except.mapError, Step.ofExcept, Step.ends_bind, Step.ends_pure]
    exact h.send hfit (hframe frame rfl)
  | error j =>
    simp only [Client.sendWritten, Except.mapError, Step.ofExcept, Step.ends_bind, Step.ends_throw]
    exact ⟨hnone j rfl, j, rfl⟩

theorem keeps_measure {name : Octets} {value : Binary64} (hname : name ≠ octets "reconnect_delay_ms")
    (hs : D.Keeps w s.rest) :
    (Client.measure net name value).Ends s (fun _ t => D.Keeps w t.rest) E := by
  refine Client.measure_ends.mono ?_ fun _ _ he => he
  intro _ t ht
  have hn := hs.trans (D.plain (d := .measures name value) hs.1 hname)
  have ho := hn.trans (D.stir hn.1 (c.alike_sample name value s.rest.outside))
  rw [ht]
  exact ho

theorem Heeds.scheduleReconnect (h : D.Heeds emit) (hs : D.Keeps w s.rest) :
    (Client.scheduleReconnect net emit).Ends s (fun _ t => D.Keeps w t.rest) E := by
  simp only [Client.scheduleReconnect, Step.ends_bind, Client.ends_current, Step.ends_ite, Step.ends_pure,
    Client.ends_change]
  refine ⟨?_, fun _ => hs⟩
  intro hp
  refine ⟨fun _ => h.tell_plain hs (by simp [Event.kind]), ?_⟩
  intro hx
  have hx' : s.rest.client.exhausted = false := by simpa using hx
  refine Client.measure_ends.mono ?_ fun _ _ he => he
  intro _ t ht
  simp only [Client.ends_changeClock]
  have hn := hs.trans (D.plan hs.1 hp hx')
  rw [ht]
  exact hn

theorem Heeds.handleClose (h : D.Heeds emit) {v : World τ} (hc : c.Current v) (hv : D.Keeps w v)
    (hs : s.rest = v.noted (.hears .closed)) :
    (Client.handleClose net emit).Ends s (fun _ t => D.Keeps w t.rest) E := by
  simp only [Client.handleClose, Step.ends_bind, Client.ends_current, Client.ends_changeHeartbeat, Client.ends_change]
  refine Client.drop_ends.mono ?_ fun _ _ he => he
  intro _ t ht
  have hn := hv.trans (D.close hv.1 hc)
  rw [← hs] at hn
  refine (h.tell_plain (w := w) ?_ (by simp [Event.kind])).mono (fun _ u hu => h.scheduleReconnect hu) fun _ _ he => he
  rw [ht]
  exact hn

theorem Heeds.receiveQuote (h : D.Heeds emit) {q : Quote} (hc : c.Current s.rest) (hs : D.Keeps w s.rest) :
    (Client.receiveQuote emit q).Ends s (fun _ t => D.Keeps w t.rest) E := by
  have hq := hs.trans (D.quote q hs.1 hc)
  have hmove : ∀ {t : Stage β (World τ)} (m : MoveSignal), D.Keeps w t.rest →
      (Client.tell emit (.significantMove m)).Ends t
        (fun _ u => (Client.tell emit (.price q)).Ends u (fun _ v => D.Keeps w v.rest) E) E :=
    fun m ht => (h.tell_plain ht (by simp [Event.kind])).mono
      (fun _ _ hu => h.tell_plain hu (by simp [Event.kind])) fun _ _ he => he
  unfold World.quoted at hq
  simp only [Client.receiveQuote, Step.ends_bind, Client.ends_current]
  rcases hu : s.rest.client.board.update q with ⟨signals, board⟩
  rw [hu] at hq
  simp only [Client.ends_change]
  rcases signals with ⟨_ | stale, _ | move⟩ <;> simp only [Step.ends_bind]
  · exact h.tell_plain hq (by simp [Event.kind])
  · exact hmove move hq
  · refine (h.tell_plain (w := w) ?_ (by simp [Event.kind])).mono
      (fun _ _ ht => h.tell_plain ht (by simp [Event.kind])) fun _ _ he => he
    exact hq
  · refine (h.tell_plain (w := w) ?_ (by simp [Event.kind])).mono (fun _ _ ht => hmove move ht) fun _ _ he => he
    exact hq

theorem Heeds.receiveMessage (h : D.Heeds emit) {m : Message} (hc : c.Current s.rest) (hs : D.Keeps w s.rest) :
    (Client.receiveMessage net emit m).Ends s (fun _ t => D.Keeps w t.rest) E := by
  cases m with
  | price q => exact h.receiveQuote hc hs
  | orderBook b => exact h.tell_plain hs (by simp [Event.kind])
  | trade t => exact h.tell_plain hs (by simp [Event.kind])
  | heartbeat =>
    simp only [Client.receiveMessage, Client.ends_changeHeartbeat]
    exact hs.trans (D.refresh hs.1)
  | unknown type raw =>
    simp only [Client.receiveMessage, Step.ends_bind]
    exact (keeps_measure (by decide) hs).mono (fun _ _ ht => h.tell_plain ht (by simp [Event.kind])) fun _ _ he => he

theorem current_measured {name : Octets} {value : Binary64} (hc : c.Current w) :
    c.Current (w.measured net name value) := by
  obtain ⟨link, hl⟩ := hc
  refine ⟨link, ?_⟩
  rw [show (w.measured net name value).outside = (net.sample name value w.outside).2.2 from rfl,
    (c.alike_sample name value w.outside).attempts]
  exact hl

theorem Heeds.receiveFrame (h : D.Heeds emit) {payload : Octets} (hc : c.Current s.rest) (hs : D.Keeps w s.rest) :
    (Client.receiveFrame net emit payload).Ends s (fun _ t => D.Keeps w t.rest) E := by
  simp only [Client.receiveFrame, Step.ends_bind]
  refine ((keeps_measure (by decide) hs).and (Client.measure_ends (E := E))).mono ?_ fun _ _ he => he.1
  rintro _ t ⟨ht, heq⟩
  have hct : c.Current t.rest := heq ▸ current_measured hc
  simp only [Client.ends_wallClock]
  cases Message.ofFrame (t.rest.epoch.after t.rest.clock.now) payload with
  | ok m => exact h.receiveMessage hct ht
  | error e =>
    simp only [Step.ends_bind]
    exact (keeps_measure (by decide) ht).mono (fun _ _ hu => h.tell_plain hu (by simp [Event.kind])) fun _ _ he => he

theorem Heeds.handleOpen (h : D.Heeds emit) {v : World τ} (hc : c.Current v) (hv : D.Keeps w v)
    (hs : s.rest = v.noted (.hears .opened)) :
    (Client.handleOpen net emit).Ends s (fun _ t => D.Keeps w t.rest) fun e t =>
      D.Keeps w t.rest ∧ Stranded v e := by
  have hclient : s.rest.client = v.client := by rw [hs]; rfl
  simp only [Client.handleOpen, Step.ends_bind, Client.ends_current, Step.ends_ite, Step.ends_pure, Client.ends_change,
    Client.ends_changeHeartbeat, Step.ends_ofExcept]
  rw [hclient]
  constructor
  case right => exact fun hp => hs ▸ hv.trans (D.hear .opened Report.noConfusion (fun _ => hp) hv.1 hc)
  intro hp
  constructor
  · intro frames hf
    have hf' : v.client.watchlist.replayFrames = .ok frames := by
      cases hr : v.client.watchlist.replayFrames with
      | ok fs => simpa [Except.mapError, hr] using hf
      | error e => simp [Except.mapError, hr] at hf
    have hstart := D.openStart hv.1 hc hp hf'
    -- The invariant of the loop is that the replay has come to where the rest of the frames is to go.
    refine (Step.ends_forM (P := fun rest t => D.replaying v rest t.rest) ?_ ?_).mono ?_ fun _ _ he => he
    · rw [hs]
      exact hstart
    · intro frame rest t ht
      have hfit : c.fit t.rest.outside := D.openFit ht
      simp only [Step.ends_bind, Client.ends_remember]
      refine Client.send_ends hfit (fun hn => D.openSent ht hn) ?_
      intro link e u hl he hu
      have hplain : (Deed.publishes (.error (octets "send failed: " ++ e.message))).IsPlain := EventKind.noConfusion
      obtain ⟨hh, hleads⟩ := D.openTold ht hl he _ hplain
      refine (h.tell (Keeps.refl ?_)).mono (fun _ x hx => hleads _ hx.1 ?_) fun _ _ he => he
      · rw [hu]
        exact hh
      · have hx' := hx.2
        rw [hu] at hx'
        exact hx'
    · intro _ t ht
      have hend := hv.trans (D.openEnd ht)
      exact h.tell hend
  · intro e he
    rw [hs]
    cases hr : v.client.watchlist.replayFrames with
    | ok fs => simp [Except.mapError, hr] at he
    | error j =>
      refine ⟨hv.trans (D.openUnwritten hv.1 hc hp hr), hp, j, hr, ?_⟩
      simpa [Except.mapError, hr] using he.symm

/-- A report to an attempt that some link has reported to is acted on, or counts for nothing. -/
theorem Heeds.receive (h : D.Heeds emit) {link attempt : Nat} {r : Report}
    (ha : attempt ∈ c.attempts link s.rest.outside) (hs : D.Keeps w s.rest) :
    (Client.receive net emit attempt r).Ends s (fun _ t => D.Keeps w t.rest) fun e t =>
      D.Keeps w t.rest ∧ r = .opened ∧ attempt = s.rest.client.attempt ∧ Stranded s.rest e := by
  simp only [Client.receive, Step.ends_bind, Client.ends_current, Step.ends_ite, Step.ends_pure, Client.ends_remember]
  refine ⟨?_, fun _ => hs⟩
  intro heq
  have hc : c.Current s.rest := ⟨link, heq ▸ ha⟩
  have hh : r ≠ .closed → r ≠ .opened → D.Keeps w (s.rest.noted (.hears r)) := fun hr ho =>
    hs.trans (D.hear r hr (fun h => absurd h ho) hs.1 hc)
  cases r with
  | opened =>
    refine (h.handleOpen hc hs rfl).mono (fun _ _ ht => ht) ?_
    intro e t ht
    exact ⟨ht.1, rfl, heq, ht.2⟩
  | closed => exact h.handleClose hc hs rfl
  | error text =>
    have hheard := hh Report.noConfusion Report.noConfusion
    exact h.tell_plain (s := { s with rest := s.rest.noted _ }) hheard (by simp [Event.kind])
  | frame payload =>
    have hc' : c.Current (s.rest.noted (.hears (.frame payload))) := hc
    exact h.receiveFrame hc' (hh Report.noConfusion Report.noConfusion)

theorem Heeds.receiveFrom (h : D.Heeds emit) {link : Nat} {r : Report} (hs : D.Keeps w s.rest) :
    (Client.receiveFrom net emit link r).Ends s (fun _ t => D.Keeps w t.rest) fun e t =>
      D.Keeps w t.rest ∧ e.isStandard = true := by
  simp only [Client.receiveFrom, Step.ends_bind, Step.ends_get]
  cases ha : net.attached? link s.rest.outside with
  | none =>
    simp only [Step.ends_pure]
    exact hs
  | some attempt =>
    refine (h.receive (c.attempts_of_attached ha) hs).mono (fun _ _ ht => ht) ?_
    rintro e t ⟨ht, -, -, hst⟩
    obtain ⟨j, -, rfl⟩ := hst.failure
    exact ⟨ht, rfl⟩

/-- A link is made, started and heard, if it can be made; whatever fails describes itself. -/
theorem Heeds.dial (h : D.Heeds emit) {v : World τ} (hv : D.holds w) (hr : Ready w v)
    (hs : s.rest = { v with client := { v.client with phase := .connecting, attempt := v.client.attempt + 1 } }) :
    (Client.dial net emit s.rest.client.attempt).Ends s
      (fun _ t => (∃ link, (net.create v.outside).1 = .ok (some link)) ∧ D.Keeps (v.dialed net) t.rest)
      fun e t => e.isStandard = true ∧ D.Keeps (v.dialed net) t.rest := by
  have hd : D.Keeps (v.dialed net) (v.dialed net) := Keeps.refl (D.dial hv hr)
  have hfit : c.fit v.outside := hr.outside_eq ▸ D.fit hv
  have ho : s.rest.outside = v.outside := by rw [hs]
  simp only [Client.dial, Step.ends_bind, Client.ends_outside, Step.ends_ofExcept, ho]
  constructor
  · intro link? hl
    cases link? with
    | none =>
      simp only [Step.ends_throw]
      refine ⟨rfl, ?_⟩
      simpa [World.dialed, World.asked, World.affected, World.noted, hl, hs] using hd
    | some link =>
      simp only [Step.ends_bind, Client.ends_change, Client.ends_changeOutside, Client.ends_current,
        Client.ends_outside, Step.ends_raise]
      have hfit' : c.fit (net.attach link (v.client.attempt + 1) (net.create v.outside).2.2) :=
        c.fit_attach _ _ ((c.alike_create _).fit hfit)
      refine (Step.ends_forM (P := fun _ t => D.Keeps (v.dialed net) t.rest) ?_ ?_).mono ?_ fun _ _ he => he
      · simpa [World.dialed, World.linked, World.asked, World.affected, World.noted, hl, hs] using hd
      · intro r _ t ht
        exact (h.receiveFrom ht).mono (fun _ _ hu => hu) fun _ _ he => ⟨he.2, he.1⟩
      · intro _ t ht
        refine ⟨fun _ => ⟨⟨link, hl⟩, ht⟩, ?_⟩
        intro e he
        refine ⟨c.standard_dial hfit' (?_ : (net.dial link v.client.endpoint _).1.2 = some e), ht⟩
        simpa [World.affected, World.noted, hs] using he
  · intro e he
    refine ⟨c.standard_create hfit he, ?_⟩
    simpa [World.dialed, World.asked, World.affected, World.noted, he, hs] using hd

/-- An attempt has failed: what it has led to leads on, whether the client gives its link up or whether a
consumer has moved it on. -/
theorem Heeds.abandon_from (h : D.Heeds emit) {b b' : World τ} {attempt : Nat} {e : Failure} (hs : D.Keeps b s.rest)
    (habandon : ∀ u, D.Keeps b u → u.client.attempt = attempt → u.client.phase = .connecting →
      D.Keeps b' (u.abandoned net))
    (hsettle : ∀ u, D.Keeps b u → ¬(u.client.attempt = attempt ∧ u.client.phase = .connecting) → D.Keeps b' u) :
    (Client.abandon net emit attempt e).Ends s (fun _ t => D.Keeps b' t.rest) E := by
  simp only [Client.abandon, Step.ends_bind, Client.ends_current, Step.ends_ite, Step.ends_pure, Client.ends_change]
  refine (h.tell_plain hs (by simp [Event.kind])).mono ?_ fun _ _ he => he
  intro _ t ht
  refine ⟨?_, hsettle t.rest ht⟩
  rintro ⟨hat, hp⟩
  have hn := habandon t.rest ht hat hp
  refine (Client.retire_ends ht.fit).mono ?_ fun _ _ he => he
  intro _ u hu
  refine (h.tell_plain (w := b') ?_ (by simp [Event.kind])).mono (fun _ _ hx => h.scheduleReconnect hx) fun _ _ he => he
  rw [hu]
  exact hn

theorem Heeds.abandon (h : D.Heeds emit) {b v : World τ} {attempt : Nat} {e : Failure} (hb : D.Keeps b w)
    (hr : Ready w v) (ha : attempt = v.client.attempt + 1) (hs : D.Keeps (v.dialed net) s.rest) :
    (Client.abandon net emit attempt e).Ends s (fun _ t => D.Keeps b t.rest) E := by
  refine h.abandon_from hs ?_ ?_
  · exact fun u hu hat hp => hb.trans (D.abandon hb.1 hr hu.1 hu.2 (hat.trans ha) hp)
  · intro u hu hn
    refine hb.trans ⟨hu.1, D.settle hb.1 hr hu.1 hu.2 (.inr ?_)⟩
    by_cases hat : u.client.attempt = attempt
    · exact .inr fun hp => hn ⟨hat, hp⟩
    · exact .inl (ha ▸ hat)

/-- An attempt that a client is ready for never fails. -/
theorem Heeds.startAttempt (h : D.Heeds emit) {b : World τ} (hb : D.Keeps b w) (hr : Ready w s.rest) :
    (Client.startAttempt net emit).Ends s (fun _ t => D.Keeps b t.rest) E := by
  simp only [Client.startAttempt, Step.ends_bind, Client.ends_change, Client.ends_current, Step.ends_recover]
  let t : Stage β (World τ) :=
    { s with rest.client := { s.rest.client with phase := .connecting, attempt := s.rest.client.attempt + 1 } }
  refine (h.dial (s := t) hb.1 hr rfl).mono ?_ ?_
  · rintro _ t ⟨hl, ht⟩
    exact hb.trans ⟨ht.1, D.settle hb.1 hr ht.1 ht.2 (.inl hl)⟩
  · rintro e t ⟨he, ht⟩
    exact ⟨fun _ => h.abandon hb hr rfl ht, fun hn => absurd he hn⟩

theorem Heeds.connect (h : D.Heeds emit) (hs : D.Keeps w s.rest) :
    (Client.connect net emit).Ends s (fun _ t => D.Keeps w t.rest) E := by
  have hn : D.Keeps w (s.rest.noted .connects) := hs.trans (D.plain hs.1 trivial)
  simp only [Client.connect, Step.ends_bind, Client.ends_remember, Client.ends_current]
  cases hp : (s.rest.noted .connects).client.phase with
  | connecting => exact Step.ends_pure.mpr hn
  | connected => exact Step.ends_pure.mpr hn
  | reconnectScheduled =>
    simp only [Step.ends_bind]
    refine Client.cancelReconnect_ends.mono ?_ fun _ _ he => he
    intro _ t ht
    refine h.startAttempt hn ?_
    rw [ht]
    exact .hurried rfl hp
  | idle =>
    simp only [Step.ends_bind, Client.ends_change]
    exact h.startAttempt hn (.asked rfl (.inl hp))
  | disconnected =>
    simp only [Step.ends_bind, Client.ends_change]
    exact h.startAttempt hn (.asked rfl (.inr hp))

theorem Heeds.disconnect (h : D.Heeds emit) (hs : D.Keeps w s.rest) :
    (Client.disconnect net emit).Ends s (fun _ t => D.Keeps w t.rest) E := by
  simp only [Client.disconnect, Step.ends_bind, Client.ends_current, Client.ends_change, Client.ends_remember,
    Step.ends_ite, Step.ends_pure]
  refine (Client.halt_ends hs.fit).mono ?_ fun _ _ he => he
  intro _ t ht
  have hn := hs.trans (D.disconnect hs.1)
  rw [ht]
  exact ⟨fun _ => h.tell_plain hn (by simp [Event.kind]), fun _ => hn⟩

theorem Heeds.fire (h : D.Heeds emit) {v : Wait} {b : World τ} (hb : D.Keeps b w) (hl : Lapses w v s.rest) :
    (Client.fire net emit v).Ends s (fun _ t => D.Keeps b t.rest) E := by
  have hq : ¬Heeded w v → D.Keeps b s.rest := fun hn => hb.trans (D.lapse hb.1 hl hn)
  simp only [Client.fire, Step.ends_bind, Client.ends_current]
  cases ht : v.timer with
  | heartbeat =>
    simp only [Step.ends_ite, Step.ends_bind, Client.ends_changeHeartbeat, Step.ends_pure, hl.client_eq]
    constructor
    · intro he
      have hn := hb.trans (D.ping hb.1 hl ht he ping_written)
      have hfit : c.fit s.rest.outside := hl.outside_eq ▸ hb.fit
      simp only [Client.sendWritten, ping_written, Except.mapError, Step.ofExcept, Step.ends_bind, Step.ends_pure]
      exact h.send hfit hn
    · intro hn
      exact hq (by simp [Heeded, ht, hn])
  | reconnect =>
    simp only [Step.ends_ite, Step.ends_pure, hl.client_eq]
    constructor
    · rintro ⟨hn, hp⟩
      exact h.startAttempt hb (.due hl ht hn hp)
    · intro hn
      exact hq (by simpa [Heeded, ht] using hn)
  | shutdown => exact Step.ends_pure.mpr (hq (by simp [Heeded, ht]))

theorem Heeds.subscribe (h : D.Heeds emit) {id : Octets} (hmay : may (.subscribe id)) (hs : D.Keeps w s.rest) :
    (Client.subscribe net emit id).Ends s (fun _ t => D.Keeps w t.rest) fun _ t =>
      D.Keeps w t.rest ∧ (Use.subscribe id).Breaks c s.rest := by
  simp only [Client.subscribe, Step.ends_bind, Client.ends_current]
  by_cases hm : id ∈ s.rest.client.watchlist.ids
  · simp only [Watchlist.add, hm, dif_pos, Bool.false_eq_true, if_false, Step.ends_pure]
    exact hs
  · have hadd : s.rest.client.watchlist.add id = (true, (s.rest.client.watchlist.add id).2) := by
      simp [Watchlist.add, hm]
    rw [hadd]
    simp only [if_true, Step.ends_bind, Client.ends_change, Client.ends_current, Step.ends_ite, Step.ends_pure]
    constructor
    · intro hp
      let t : Stage β (World τ) := { s with rest := s.rest.watching fun l => (l.add id).2 }
      refine (h.sendWritten (s := t) (w := w) hs.fit ?_ ?_).mono (fun _ _ ht => ht) fun _ _ ht =>
        ⟨ht.1, hp, hm, (Watchlist.exists_marketFrame_error_iff rfl).mp ht.2⟩
      · exact fun frame hf => hs.trans (D.subscribeSent hs.1 hmay hm hp hf)
      · exact fun j hf => hs.trans (D.subscribe hs.1 hmay hm fun _ => ⟨j, hf⟩)
    · intro hp
      exact hs.trans (D.subscribe hs.1 hmay hm fun hc => absurd hc hp)

theorem Heeds.unsubscribe (h : D.Heeds emit) {name : Naming} (hmay : may (.unsubscribe name))
    (hs : D.Keeps w s.rest) :
    (Client.unsubscribe net emit name).Ends s (fun _ t => D.Keeps w t.rest) fun _ t =>
      D.Keeps w t.rest ∧ (Use.unsubscribe name).Breaks c s.rest := by
  simp only [Client.unsubscribe, Step.ends_bind, Client.ends_current]
  by_cases hm : name.read s.rest.client.watchlist ∈ s.rest.client.watchlist.ids
  · rw [Watchlist.withdraw_of_mem hm]
    simp only [if_true, Step.ends_bind, Client.ends_change, Client.ends_current, Step.ends_ite, Step.ends_pure]
    constructor
    · intro hp
      let t : Stage β (World τ) := { s with rest := s.rest.watching fun l => (l.withdraw name).2 }
      refine (h.sendWritten (s := t) (w := w) hs.fit ?_ ?_).mono (fun _ _ ht => ht) fun _ _ ht =>
        ⟨ht.1, hp, hm, (Watchlist.exists_marketFrame_error_iff rfl).mp ht.2⟩
      · exact fun frame hf => hs.trans (D.unsubscribeSent hs.1 hmay hm hp hf)
      · exact fun j hf => hs.trans (D.unsubscribe hs.1 hmay hm fun _ => ⟨j, hf⟩)
    · intro hp
      exact hs.trans (D.unsubscribe hs.1 hmay hm fun hc => absurd hc hp)
  · simp only [Watchlist.withdraw_of_not_mem hm, Bool.false_eq_true, if_false, Step.ends_pure]
    exact hs

/-- Whatever is done with a client keeps the discipline, and fails only if an instrument has no frame. -/
theorem Heeds.perform (h : D.Heeds emit) {op : Use} (hmay : may op) (hs : D.Keeps w s.rest) :
    (op.perform c emit).Ends s (fun _ t => D.Keeps w t.rest) fun _ t => D.Keeps w t.rest ∧ op.Breaks c s.rest := by
  cases op with
  | connect => exact h.connect hs
  | disconnect => exact h.disconnect hs
  | subscribe id => exact h.subscribe hmay hs
  | unsubscribe id => exact h.unsubscribe hmay hs
  | report link index r =>
    simp only [Use.perform, Step.ends_bind, Step.ends_get]
    cases ha : (c.attempts link s.rest.outside)[index]? with
    | none =>
      simp only [Step.ends_pure]
      exact hs
    | some attempt =>
      refine (h.receive (List.mem_of_getElem? ha) hs).mono (fun _ _ ht => ht) ?_
      rintro _ t ⟨ht, hr, rfl, hst⟩
      obtain ⟨j, hj, -⟩ := hst.failure
      exact ⟨ht, hr, ha, hst.phase, Watchlist.exists_replayFrames_error_iff.mp ⟨j, hj⟩⟩

/-- Programs that use a client keep the discipline, with a value or with a failure. -/
theorem Heeds.uses (h : D.Heeds emit) {α : Type} {x : Step (Stage β (World τ)) α} (hx : Uses c may emit x)
    (hs : D.Keeps w s.rest) : x.Ends s (fun _ t => D.Keeps w t.rest) fun _ t => D.Keeps w t.rest := by
  refine hx.keeps ?_ ?_ ?_ hs
  · exact fun hv ht => hv.trans (D.stir hv.1 ht)
  · exact fun e t ht => (h e t ht.1).mono (fun _ _ hu => ht.trans hu) fun _ _ he => he.elim
  · exact fun hmay t ht => (h.perform hmay ht).mono (fun _ _ hu => hu) fun _ _ he => he.1

/-- Delivery keeps what the handlers keep, and does not fail. -/
theorem ends_deliver {P : World τ → Prop} {run : Slot β → Event → Step (Stage β (World τ)) Unit} {e : Event}
    (hrun : ∀ slot s, P s.rest → (run slot e).Ends s (fun _ t => P t.rest) fun _ t => P t.rest) (ids : List Nat)
    (hs : P s.rest) : (Stage.deliver run e ids).Ends s (fun _ t => P t.rest) E := by
  induction ids generalizing s with
  | nil => exact Step.ends_pure.mpr hs
  | cons id rest ih =>
    simp only [Stage.deliver, Step.ends_bind, Step.ends_get]
    cases s.bus.find? id with
    | none => exact ih hs
    | some slot =>
      simp only [Step.ends_bind, Step.ends_ignoreFailure]
      exact (hrun slot s hs).mono (fun _ _ ht => ih ht) fun _ _ ht => ih ht

/-- Consumers keep every discipline. -/
theorem heeds_of_consumer (D : Discipline c may) (h : Consumer c may emit) : D.Heeds emit := by
  -- Consumers are nested: what the called ones publish is heard by those inside, who keep the discipline by induction.
  induction h with
  | deaf => exact fun _ _ _ => Step.ends_exhausted
  | hearing _ hrun ih =>
    intro e s hs
    simp only [Stage.publish, Step.ends_bind, Step.ends_get]
    exact ends_deliver (fun slot _ ht => ih.uses (hrun slot e) ht) _ (Keeps.refl hs)

/-- A law that holds at the start, and what it leads on to from there, hold in every state that a
client can be left in. -/
theorem settled_of_reached (D : Discipline c may) {P : World τ → Prop}
    (hstart : ∀ settings endpoint t epoch, c.Blank t →
      D.holds { client := .ofSettings settings endpoint, outside := t, epoch } ∧
        P { client := .ofSettings settings endpoint, outside := t, epoch })
    (hleads : ∀ {w v}, P w → D.Keeps w v → P v) (h : Reached c may s) : D.holds s.rest ∧ P s.rest := by
  have hnext : ∀ {w v}, D.holds w ∧ P w → D.Keeps w v → D.holds v ∧ P v := fun hw hv => ⟨hv.1, hleads hw.2 hv⟩
  induction h with
  | start _ _ epoch hc ht =>
    obtain ⟨endpoint, rfl⟩ := Client.eq_ofSettings hc
    exact hstart _ endpoint _ epoch ht
  | @use _ _ _ _ _ r _ hemit hx ho ih =>
    have hk := (D.heeds_of_consumer hemit).uses hx (Keeps.refl ih.1) _ _ ho
    cases r with
    | ok a => exact hnext ih hk
    | error e => exact hnext ih hk
  | pass now _ ih => exact hnext ih (D.pass now ih.1)
  | @lapse _ _ _ _ _ r _ hemit hl ho ih =>
    have hk := (D.heeds_of_consumer hemit).fire (E := fun _ _ => False) (Keeps.refl ih.1) hl _ _ ho
    cases r with
    | ok a => exact hnext ih hk
    | error e => exact hk.elim

end Discipline

end QuoteFeed
