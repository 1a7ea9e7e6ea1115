import QuoteFeed.Proofs.Pacing
import QuoteFeed.Proofs.Watching
import Mathlib.Data.List.Chain

/-!
What a client with observers tells of its connections: it tells of an opening and of an end by turns,
and after each end that it was not told to make, it plans a reconnect or gives up.
-/

namespace QuoteFeed

variable {β τ : Type} {net : Network τ} {c : Conduct net} {may : Use → Prop} {w v u : World τ}

namespace Event

/-- Whether an event begins a time of being connected, or ends it. -/
def bracket? : Event → Option Bool
  | connected _ => some true
  | disconnected _ true => some false
  | _ => none

def IsLifecycle (e : Event) : Prop := e.kind = .connected ∨ e.kind = .disconnected

end Event

namespace Moment

def bracket? (m : Moment) : Option Bool :=
  match m.deed with
  | .publishes e => e.bracket?
  | _ => none

/-- The end of a link is told that the client was not told to give up. -/
def parts (m : Moment) : Prop := ∃ connected, m.deed = .publishes (.disconnected false connected)

/-- A client without a link tells that it gives up. In the course of an attempt the same words may be those
of the link. -/
def surrenders (m : Moment) : Prop :=
  m.deed = .publishes (.error (octets "reconnect attempts exhausted")) ∧ ¬m.client.phase.Linked

/-- What is done next owes something to what was done last. -/
structure Fits (m : Moment) (rest : List Moment) : Prop where
  closed : ∀ p ∈ rest.head?, p.deed = .hears .closed → m.parts
  parted : ∀ p ∈ rest.head?, p.parts → p.client.exhausted = false → m.plans = true
  spent : ∀ p ∈ rest.head?, p.parts → p.client.exhausted = true → m.surrenders
  planned : ∀ p ∈ rest.head?, p.plans = true →
    m.client.phase = .reconnectScheduled ∨ m.deed = .asks ∨ m.deed = .disconnects
  surrendered : m.surrenders → m.client.phase = .disconnected ∧ m.client.exhausted = true ∧ ∃ p ∈ rest.head?, p.parts
  dismissed : ∀ connected, m.deed = .publishes (.disconnected true connected) →
    connected = true ∧ ∃ p ∈ rest.head?, p.deed = .disconnects

/-- Nothing in particular has to be done next, in some phase. -/
structure Settled (phase : Phase) (m : Moment) : Prop where
  closed : m.deed ≠ .hears .closed
  parted : ¬m.parts
  planned : m.plans = true → phase = .reconnectScheduled

/-- Nothing in particular has been done. -/
structure Plain (m : Moment) : Prop where
  plans : m.plans = false
  told : ∀ byUser connected, m.deed ≠ .publishes (.disconnected byUser connected)
  surrenders : ¬m.surrenders

end Moment

/-- The beginnings and the ends of the times of being connected that have been told, the last one first. -/
def brackets (history : List Moment) : List Bool := history.filterMap Moment.bracket?

/-- Everything that was done follows upon what was done before it, and nothing in particular has to be done
next. -/
structure Orderly (phase : Phase) (history : List Moment) : Prop where
  fits : Throughout Moment.Fits history
  settled : ∀ m ∈ history.head?, m.Settled phase

section

variable {phase phase' : Phase} {history rest : List Moment} {m : Moment}

theorem Moment.Plain.fits (hm : m.Plain) (hs : ∀ p ∈ rest.head?, p.Settled phase)
    (hp : m.client.phase = phase ∨ m.deed = .asks ∨ m.deed = .disconnects) : m.Fits rest where
  closed p hin hd := absurd hd (hs p hin).closed
  parted p hin hd := absurd hd (hs p hin).parted
  spent p hin hd := absurd hd (hs p hin).parted
  planned p hin hd := hp.imp_left fun he => he.trans ((hs p hin).planned hd)
  surrendered hd := absurd hd hm.surrenders
  dismissed _ hd := absurd hd (hm.told _ _)

/-- What is not told is plain, unless a reconnect is planned by it. -/
theorem Moment.Plain.untold (hplans : m.plans = false) (hm : ∀ e, m.deed ≠ .publishes e) : m.Plain :=
  ⟨hplans, fun _ _ => hm _, fun hs => hm _ hs.1⟩

/-- What is done just after the end of a link. -/
theorem Moment.Fits.of_parts {p : Moment} (hp : p.parts) (hplans : p.client.exhausted = false → m.plans = true)
    (hspent : p.client.exhausted = true → m.surrenders)
    (hsurrenders : m.surrenders → m.client.phase = .disconnected ∧ m.client.exhausted = true)
    (htold : ∀ connected, m.deed ≠ .publishes (.disconnected true connected)) : m.Fits (p :: rest) := by
  have hdeed := hp
  obtain ⟨connected, hd⟩ := hdeed
  refine ⟨?_, ?_, ?_, ?_, ?_, fun _ hm => absurd hm (htold _)⟩
  · rintro _ ⟨⟩ hc
    exact Deed.noConfusion (hd.symm.trans hc)
  · rintro _ ⟨⟩ -
    exact hplans
  · rintro _ ⟨⟩ -
    exact hspent
  · rintro _ ⟨⟩ hc
    simp [Moment.plans, hd] at hc
  · exact fun hm => ⟨(hsurrenders hm).1, (hsurrenders hm).2, p, rfl, hp⟩

theorem Moment.Plain.settled (hm : m.Plain) (hc : m.deed ≠ .hears .closed) : m.Settled phase where
  closed := hc
  parted := fun ⟨_, hd⟩ => hm.told _ _ hd
  planned hd := absurd (hm.plans.symm.trans hd) Bool.false_ne_true

theorem Orderly.add (h : Orderly phase history) (hm : m.Plain)
    (hp : m.client.phase = phase ∨ m.deed = .asks ∨ m.deed = .disconnects)
    (hc : m.deed ≠ .hears .closed) : Orderly phase' (m :: history) where
  fits := ⟨hm.fits h.settled hp, h.fits⟩
  settled := by
    rintro _ ⟨⟩
    exact hm.settled hc

theorem Deed.IsRoutine.ne_closed {d : Deed} (hd : d.IsRoutine) : d ≠ .hears .closed := by
  rintro rfl
  exact hd rfl

/-- What is routine over a link is plain. -/
theorem Deed.IsRoutine.plain {d : Deed} (hd : d.IsRoutine) {client : Client} (clock : Clock)
    (hp : client.phase.Linked) : Moment.Plain ⟨client, clock, d⟩ := by
  cases d with
  | hears r => exact .untold rfl fun _ => Deed.noConfusion
  | measures name value =>
    have hname : name ≠ octets "reconnect_delay_ms" := hd
    exact .untold (by simp [Moment.plans, hname]) fun _ => Deed.noConfusion
  | publishes e =>
    refine ⟨rfl, ?_, fun hs => hs.2 hp⟩
    rintro byUser connected ⟨⟩
    exact hd.2 rfl
  | connects => exact .untold rfl fun _ => Deed.noConfusion
  | replays => exact .untold rfl fun _ => Deed.noConfusion
  | sends => exact .untold rfl fun _ => Deed.noConfusion
  | _ => exact hd.elim

theorem plain_complaint {client : Client} {clock : Clock} {text : Octets} :
    Moment.Plain ⟨client, clock, .publishes (.error (octets "connect failed: " ++ text))⟩ := by
  refine ⟨rfl, fun _ _ hd => Event.noConfusion (Deed.publishes.inj hd), ?_⟩
  rintro ⟨hd, -⟩
  have htext := congrArg List.head? (Event.error.inj (Deed.publishes.inj hd))
  have hfirst : (octets "connect failed: " ++ text).head? = (octets "connect failed: ").head? := rfl
  exact absurd (hfirst.symm.trans htext) (by decide)

/-- Where no reconnect is planned, the last deed was neither the end of a link nor a planning. -/
theorem Orderly.head (h : Orderly phase history) (hp : phase ≠ .reconnectScheduled) :
    ∀ p ∈ history.head?, ¬p.parts ∧ p.plans = false := by
  intro p hin
  have hs : p.Settled phase := h.settled p hin
  exact ⟨hs.parted, eq_false_of_ne_true fun hd => hp (hs.planned hd)⟩

theorem Orderly.routine {added : List Moment} (h : Orderly phase history) (hp : phase.Linked)
    (hadded : ∀ m ∈ added, m.client.phase = phase ∧ m.deed.IsRoutine) : Orderly phase (added ++ history) := by
  induction added with
  | nil => exact h
  | cons m added ih =>
    obtain ⟨hphase, hroutine⟩ := hadded m List.mem_cons_self
    have hm : m.Plain := hroutine.plain m.clock (hphase ▸ hp)
    exact (ih fun m' hm' => hadded m' (List.mem_cons_of_mem m hm')).add hm (.inl hphase) hroutine.ne_closed

end

namespace World

@[simp] theorem dropped_phase : (w.dropped net).client.phase = w.client.phase := by
  unfold dropped
  split <;> rfl

theorem orderly_retired (h : Orderly w.client.phase w.history) :
    Orderly w.client.phase (w.retired net).history := by
  cases hl : w.client.link with
  | none =>
    rw [retired_of_none hl]
    exact h
  | some link =>
    rw [retired_history hl]
    exact h.add (.untold rfl fun _ => Deed.noConfusion) (.inl dropped_phase) Deed.noConfusion

theorem orderly_dialed {phase : Phase} (h : Orderly phase w.history) :
    Orderly .connecting (w.dialed net).history := by
  have hasked : Orderly .connecting (w.asked net).history :=
    h.add (.untold rfl fun _ => Deed.noConfusion) (.inr (.inl rfl)) Deed.noConfusion
  unfold dialed
  split
  next => exact hasked.add (.untold rfl fun _ => Deed.noConfusion) (.inl rfl) Deed.noConfusion
  all_goals exact hasked

/-- To plan or to give up is what is owed after a link is gone. -/
theorem orderly_parted {connected : Bool} (h : Throughout Moment.Fits w.history)
    (hhead : ∀ p ∈ w.history.head?, ¬p.parts ∧ p.plans = false) (hp : w.client.phase = .disconnected) :
    Orderly (w.parted net connected).client.phase (w.parted net connected).history := by
  let p : Moment := ⟨w.client, w.clock, .publishes (.disconnected false connected)⟩
  have hparts : p.parts := ⟨connected, rfl⟩
  have hfits : p.Fits w.history := by
    refine ⟨fun _ _ _ => hparts, ?_, ?_, ?_, fun hd => Event.noConfusion (Deed.publishes.inj hd.1),
      fun _ hd => Bool.noConfusion (Event.disconnected.inj (Deed.publishes.inj hd)).1⟩
    · exact fun q hin hd => absurd hd (hhead q hin).1
    · exact fun q hin hd => absurd hd (hhead q hin).1
    · exact fun q hin hd => absurd ((hhead q hin).2.symm.trans hd) Bool.false_ne_true
  by_cases hx : w.client.exhausted = true
  · let m : Moment := ⟨w.client, w.clock, .publishes (.error (octets "reconnect attempts exhausted"))⟩
    have hm : m.surrenders := ⟨rfl, by simp [m, Phase.Linked, hp]⟩
    have hparted : w.parted net connected = (w.noted p.deed).noted m.deed := if_pos hx
    rw [hparted]
    refine ⟨⟨.of_parts hparts (fun hn => Bool.noConfusion (hx.symm.trans hn)) (fun _ => hm) (fun _ => ⟨hp, hx⟩)
      fun _ hd => Event.noConfusion (Deed.publishes.inj hd), hfits, h⟩, ?_⟩
    rintro _ ⟨⟩
    exact ⟨Deed.noConfusion, fun ⟨_, hd⟩ => Event.noConfusion (Deed.publishes.inj hd), Bool.noConfusion⟩
  · have hparted : w.parted net connected = (w.noted p.deed).planned net := if_neg hx
    rw [hparted]
    refine ⟨⟨.of_parts hparts (fun _ => rfl) (fun hn => absurd hn hx) (fun hd => Deed.noConfusion hd.1)
      fun _ => Deed.noConfusion, hfits, h⟩, ?_⟩
    rintro _ ⟨⟩
    exact ⟨Deed.noConfusion, fun ⟨_, hd⟩ => Deed.noConfusion hd, fun _ => rfl⟩

theorem orderly_disconnected (h : Orderly w.client.phase w.history) :
    Orderly .idle (w.disconnected net).history :=
  (orderly_retired (w := w.cancelled.paced Heartbeat.stop) h).add (.untold rfl fun _ => Deed.noConfusion)
    (.inr (.inr rfl)) Deed.noConfusion

theorem orderly_dismissed (h : Orderly w.client.phase w.history) :
    Orderly (w.dismissed net).client.phase (w.dismissed net).history := by
  have hd : Orderly .idle (w.disconnected net).history := orderly_disconnected h
  unfold dismissed
  split
  next =>
    -- The end is told just after the client has been disconnected.
    refine ⟨⟨⟨?_, ?_, ?_, ?_, fun hs => Event.noConfusion (Deed.publishes.inj hs.1), ?_⟩, hd.fits⟩, ?_⟩
    · exact fun p hin hp => absurd hp (hd.settled p hin).closed
    · exact fun p hin hp => absurd hp (hd.settled p hin).parted
    · exact fun p hin hp => absurd hp (hd.settled p hin).parted
    · rintro _ ⟨⟩ hp
      exact Bool.noConfusion hp
    · rintro _ ⟨⟩
      exact ⟨rfl, _, rfl, rfl⟩
    · rintro _ ⟨⟩
      refine ⟨Deed.noConfusion, ?_, Bool.noConfusion⟩
      exact fun ⟨_, hd⟩ => Bool.noConfusion (Event.disconnected.inj (Deed.publishes.inj hd)).1
  next => exact hd

end World

/-- One turn keeps the order. -/
theorem Turn.orderly (h : Turn net may w v) (hw : Orderly w.client.phase w.history) :
    Orderly v.client.phase v.history := by
  have hcall : Orderly w.client.phase (w.noted .connects).history :=
    hw.add (.untold rfl fun _ => Deed.noConfusion) (.inl rfl) Deed.noConfusion
  have hopened : ∀ phase, Orderly phase (⟨w.client, w.clock, .hears .opened⟩ :: w.history) := fun _ =>
    hw.add (.untold rfl fun _ => Deed.noConfusion) (.inl rfl) fun hd => Report.noConfusion (Deed.hears.inj hd)
  cases h with
  | still h =>
    rw [h.history, h.phase]
    exact hw
  | note hp hd => exact hw.add (hd.plain _ hp) (.inl rfl) hd.ne_closed
  | complain => exact hw.add plain_complaint (.inl rfl) Deed.noConfusion
  | call =>
    rw [World.dialed_phase]
    exact World.orderly_dialed (w := { w.noted .connects with client.backoff := _ }) hcall
  | hurry =>
    rw [World.dialed_phase]
    exact World.orderly_dialed (w := (w.noted .connects).cancelled) hcall
  | @due u _ hl =>
    have hu : Orderly w.client.phase u.history := hl.history_eq ▸ hw
    rw [World.dialed_phase]
    exact World.orderly_dialed hu
  | fail text hp =>
    let u : World τ := w.noted (.publishes (.error (octets "connect failed: " ++ text)))
    have hu : Orderly u.client.phase u.history := hw.add plain_complaint (.inl rfl) Deed.noConfusion
    have hr : Orderly u.client.phase (u.abandoned net).history := World.orderly_retired hu
    have hscheduled : u.client.phase ≠ .reconnectScheduled := by simp [u, World.noted, hp]
    exact World.orderly_parted hr.fits (hr.head hscheduled) rfl
  | lose hp =>
    let u : World τ := (w.noted (.hears .closed)).closed net
    have hu : u.history = ⟨w.client, w.clock, .hears .closed⟩ :: w.history := World.dropped_history
    have hm : Moment.Plain ⟨w.client, w.clock, .hears .closed⟩ := .untold rfl fun _ => Deed.noConfusion
    refine World.orderly_parted (w := u) ?_ ?_ rfl
    · rw [hu]
      exact ⟨hm.fits hw.settled (.inl rfl), hw.fits⟩
    · rw [hu]
      rintro _ ⟨⟩
      exact ⟨fun ⟨_, hd⟩ => Deed.noConfusion hd, rfl⟩
  | dismiss => exact World.orderly_dismissed hw
  | @«open» u _ hu =>
    obtain ⟨added, hadded, hroutine⟩ := hu.history
    have hphase : u.client.phase = .connected := congrArg Client.phase hu.client
    have hreplayed : Orderly .connected u.history := by
      rw [hadded]
      refine (hopened _).routine (.inr rfl) fun m hm => ?_
      exact ⟨congrArg Client.phase (hroutine m hm).1, (hroutine m hm).2⟩
    have hplain : Moment.Plain ⟨u.started.client, u.started.clock, .publishes (.connected u.client.endpoint.url)⟩ := by
      refine ⟨rfl, fun _ _ hd => Event.noConfusion (Deed.publishes.inj hd), ?_⟩
      exact fun hs => Event.noConfusion (Deed.publishes.inj hs.1)
    exact hreplayed.add hplain (.inl hphase) Deed.noConfusion
  | openUnwritten => exact hopened _

/-- Beginnings and ends have been told by turns, and the client is connected exactly if a beginning was told
last. -/
structure Bracketed (w : World τ) : Prop where
  alternating : (brackets w.history ++ [false]).IsChain (· ≠ ·)
  last : w.client.phase = .connected ↔ (brackets w.history).head? = some true

section

variable {history rest added : List Moment}

theorem brackets_append : brackets (added ++ history) = brackets added ++ brackets history := List.filterMap_append

theorem Deed.IsRoutine.bracket? {m : Moment} (hd : m.deed.IsRoutine) : m.bracket? = none := by
  obtain ⟨client, clock, d⟩ := m
  cases d with
  | publishes e => cases e <;> first | rfl | exact absurd rfl hd.1 | exact absurd rfl hd.2
  | _ => rfl

theorem brackets_routine (hadded : ∀ m ∈ added, m.deed.IsRoutine) : brackets (added ++ history) = brackets history := by
  have hnone : brackets added = [] := List.filterMap_eq_nil_iff.mpr fun m hm => (hadded m hm).bracket?
  rw [brackets_append, hnone, List.nil_append]

theorem World.brackets_retired : brackets (w.retired net).history = brackets w.history := by
  cases hl : w.client.link with
  | none => rw [retired_of_none hl]
  | some link =>
    rw [retired_history hl]
    rfl

theorem World.brackets_dialed : brackets (w.dialed net).history = brackets w.history := by
  unfold dialed
  split <;> rfl

theorem World.brackets_parted {connected : Bool} : brackets (w.parted net connected).history =
    if connected = true then false :: brackets w.history else brackets w.history := by
  unfold parted replanned
  cases connected <;> split <;> rfl

end

@[simp] theorem World.dialed_watchlist : (w.dialed net).client.watchlist = w.client.watchlist := by
  unfold dialed
  split <;> rfl

@[simp] theorem World.parted_watchlist {connected : Bool} :
    (w.parted net connected).client.watchlist = w.client.watchlist := by
  unfold parted replanned
  split <;> rfl

theorem World.parted_phase_ne {connected : Bool} (hp : w.client.phase = .disconnected) :
    (w.parted net connected).client.phase ≠ .connected := by
  unfold parted replanned
  split
  next => simp [noted, hp]
  next => exact Phase.noConfusion

/-- One turn adds no instrument that may not be asked for. -/
theorem Turn.ids (h : Turn net may w v) :
    ∀ id ∈ v.client.watchlist.ids, id ∈ w.client.watchlist.ids ∨ may (.subscribe id) := by
  have hsame : v.client.watchlist = w.client.watchlist →
      ∀ id ∈ v.client.watchlist.ids, id ∈ w.client.watchlist.ids ∨ may (.subscribe id) :=
    fun he id hid => .inl (he ▸ hid)
  cases h with
  | still h => exact h.ids
  | note => exact hsame rfl
  | complain => exact hsame rfl
  | call => exact hsame World.dialed_watchlist
  | hurry => exact hsame World.dialed_watchlist
  | due hl => exact hsame (World.dialed_watchlist.trans (congrArg Client.watchlist hl.client_eq))
  | fail => exact hsame (World.parted_watchlist.trans World.abandoned_watchlist)
  | lose => exact hsame (World.parted_watchlist.trans World.closed_watchlist)
  | dismiss =>
    have hnone : (w.dismissed net).client.watchlist.ids = [] := by
      unfold World.dismissed
      split <;> rfl
    intro id hid
    rw [hnone] at hid
    exact absurd hid List.not_mem_nil
  | @«open» u _ hu =>
    have hwatchlist : u.client.watchlist = w.client.watchlist := by
      rw [hu.client]
      rfl
    exact hsame hwatchlist
  | openUnwritten => exact hsame rfl

namespace Bracketed

theorem same (h : Bracketed w) (hbrackets : brackets v.history = brackets w.history)
    (hphase : v.client.phase = .connected ↔ w.client.phase = .connected) : Bracketed v where
  alternating := hbrackets ▸ h.alternating
  last := by
    rw [hbrackets, hphase]
    exact h.last

/-- A client that is not connected may begin to be. -/
theorem begun (h : Bracketed w) (hp : w.client.phase ≠ .connected) (hv : v.client.phase = .connected)
    (hbrackets : brackets v.history = true :: brackets w.history) : Bracketed v where
  alternating := by
    rw [hbrackets, List.cons_append]
    refine List.isChain_cons.mpr ⟨?_, h.alternating⟩
    rintro y hy rfl
    cases hb : brackets w.history with
    | nil => simp [hb] at hy
    | cons b bs =>
      have hb' : b = true := by simpa [hb] using hy
      exact hp (h.last.mpr (by rw [hb, hb']; rfl))
  last := by
    rw [hbrackets, hv]
    simp

theorem ended (h : Bracketed w) (hp : w.client.phase = .connected) (hv : v.client.phase ≠ .connected)
    (hbrackets : brackets v.history = false :: brackets w.history) : Bracketed v where
  alternating := by
    rw [hbrackets, List.cons_append]
    refine List.isChain_cons.mpr ⟨?_, h.alternating⟩
    rintro y hy rfl
    cases hb : brackets w.history with
    | nil =>
      have hlast := h.last.mp hp
      simp [hb] at hlast
    | cons b bs =>
      have hlast := h.last.mp hp
      have hb' : b = false := by simpa [hb] using hy
      simp [hb, hb'] at hlast
  last := by
    rw [hbrackets]
    simp [hv]

end Bracketed

/-- One turn keeps beginnings and ends in step, if all instruments can be asked for. -/
theorem Turn.bracketed (h : Turn net may w v) (hnamed : ∀ id ∈ w.client.watchlist.ids, Utf8.wellFormed id = true)
    (hw : Bracketed w) : Bracketed v := by
  have hdialed : ∀ {u : World τ}, brackets u.history = brackets w.history → w.client.phase ≠ .connected →
      Bracketed (u.dialed net) := fun hu hp =>
    hw.same (World.brackets_dialed.trans hu) (by simp [hp])
  cases h with
  | still h => exact hw.same (congrArg brackets h.history) (by rw [h.phase])
  | @note d _ hd =>
    have hsame : brackets ([⟨w.client, w.clock, d⟩] ++ w.history) = brackets w.history :=
      brackets_routine (by simpa using hd)
    exact hw.same hsame Iff.rfl
  | complain => exact hw.same rfl Iff.rfl
  | call _ hp => exact hdialed rfl (by rcases hp with hp | hp <;> simp [hp])
  | hurry _ hp => exact hdialed rfl (by simp [hp])
  | due hl hp => exact hdialed (congrArg brackets hl.history_eq) (by simp [hp])
  | fail text hp =>
    have hv : (w.failed net text).client.phase ≠ .connected := World.parted_phase_ne rfl
    refine hw.same (World.brackets_parted.trans World.brackets_retired) ?_
    exact iff_of_false hv (by simp [hp])
  | lose hp =>
    have hheard : ((w.noted (.hears .closed)).closed net).history = (w.noted (.hears .closed)).history :=
      World.dropped_history
    have hhistory : brackets ((w.noted (.hears .closed)).closed net).history = brackets w.history := by
      rw [hheard]
      rfl
    have hv : (w.lost net).client.phase ≠ .connected := World.parted_phase_ne rfl
    by_cases hc : w.client.phase = .connected
    · refine hw.ended hc hv (World.brackets_parted.trans ?_)
      rw [if_pos (by simpa using hc), hhistory]
    · refine hw.same (World.brackets_parted.trans ?_) (iff_of_false hv hc)
      rw [if_neg (by simpa using hc), hhistory]
  | dismiss =>
    have hhistory : brackets (w.disconnected net).history = brackets w.history :=
      World.brackets_retired (w := w.cancelled.paced Heartbeat.stop)
    unfold World.dismissed
    split
    next hc => exact hw.ended hc Phase.noConfusion (congrArg (false :: ·) hhistory)
    next hc => exact hw.same hhistory (iff_of_false Phase.noConfusion hc)
  | @«open» u hp hu =>
    obtain ⟨added, hadded, hroutine⟩ := hu.history
    have hphase : u.client.phase = .connected := congrArg Client.phase hu.client
    have hhistory : brackets u.history = brackets w.history := by
      rw [hadded]
      exact brackets_routine fun m hm => (hroutine m hm).2
    exact hw.begun (by simp [hp]) hphase (congrArg (true :: ·) hhistory)
  | openUnwritten _ he =>
    obtain ⟨id, hid, hn⟩ := Watchlist.exists_replayFrames_error_iff.mp ⟨_, he⟩
    exact Bool.noConfusion ((hnamed id hid).symm.trans hn)

/-- A client in some phase has answered the end of a link, by what has been done since: at once a reconnect
was planned, or the client gave up, and it gives up no second time before something else becomes of it. -/
def Answered (phase : Phase) (newer : List Moment) : Prop :=
  ∃ later m, newer = later ++ [m] ∧
    (m.surrenders ∨ m.plans = true ∧ (later = [] → phase = .reconnectScheduled) ∧
      ∀ p ∈ later.getLast?, p.client.phase = .reconnectScheduled ∨ p.deed = .asks ∨ p.deed = .disconnects) ∧
    ∀ newest p between, later = newest ++ p :: between → p.surrenders →
      ∃ q ∈ between, ∃ e, q.deed = .publishes e ∧ e.IsLifecycle

theorem Moment.parts.bracket {m : Moment} (h : m.parts) : ∃ e, m.deed = .publishes e ∧ e.IsLifecycle := by
  obtain ⟨connected, hd⟩ := h
  exact ⟨_, hd, .inr rfl⟩

theorem Moment.parts.not_plans {m : Moment} (h : m.parts) : m.plans = false := by
  obtain ⟨connected, hd⟩ := h
  simp [Moment.plans, hd]

theorem Moment.parts.not_surrenders {m : Moment} (h : m.parts) : ¬m.surrenders := by
  obtain ⟨connected, hd⟩ := h
  exact fun hs => Event.noConfusion (Deed.publishes.inj (hd.symm.trans hs.1))

/-- Something has been done since the end of a link. -/
theorem Orderly.next {phase : Phase} {newer older : List Moment} {m : Moment}
    (h : Orderly phase (newer ++ m :: older)) (hm : m.parts) :
    ∃ later p, newer = later ++ [p] ∧ p.Fits (m :: older) := by
  rcases List.eq_nil_or_concat newer with rfl | ⟨later, p, rfl⟩
  · exact absurd hm (h.settled m rfl).parted
  rw [List.concat_eq_append, List.append_assoc, List.singleton_append] at h
  exact ⟨later, p, List.concat_eq_append, h.fits.at⟩

/-- The end of a link after which no more attempts are allowed is followed by giving up. -/
theorem Orderly.spent {phase : Phase} {newer older : List Moment} {m : Moment}
    (h : Orderly phase (newer ++ m :: older)) (hm : m.parts) (hx : m.client.exhausted = true) :
    ∃ p ∈ newer.getLast?, p.surrenders := by
  obtain ⟨later, p, rfl, hp⟩ := h.next hm
  exact ⟨p, List.getLast?_concat, hp.spent m rfl hm hx⟩

/-- Every end of a link is answered. -/
theorem Orderly.answered {phase : Phase} {newer older : List Moment} {m : Moment}
    (h : Orderly phase (newer ++ m :: older)) (hm : m.parts) : Answered phase newer := by
  obtain ⟨later, next, rfl, hnext⟩ := h.next hm
  rw [List.append_assoc, List.singleton_append] at h
  have hanswer : next.surrenders ∨ next.plans = true := by
    by_cases hx : m.client.exhausted = true
    · exact .inl (hnext.spent m rfl hm hx)
    · exact .inr (hnext.parted m rfl hm (eq_false_of_ne_true hx))
  refine ⟨later, next, rfl, hanswer.imp_right fun hp => ⟨hp, ?_, ?_⟩, ?_⟩
  · rintro rfl
    exact (h.settled next rfl).planned hp
  · intro p hin
    obtain ⟨later', rfl⟩ := List.getLast?_eq_some_iff.mp hin
    rw [List.append_assoc, List.singleton_append] at h
    have hp' : p.Fits (next :: m :: older) := h.fits.at
    exact hp'.planned next rfl hp
  · rintro newest p between rfl hp
    rw [List.append_assoc, List.cons_append] at h
    have hp' : p.Fits (between ++ next :: m :: older) := h.fits.at
    obtain ⟨-, -, q, hin, hq⟩ := hp'.surrendered hp
    cases between with
    | nil =>
      obtain rfl : next = q := by simpa using hin
      rcases hanswer with hs | hs
      · exact absurd hs hq.not_surrenders
      · exact Bool.noConfusion (hq.not_plans.symm.trans hs)
    | cons p' between =>
      obtain rfl : p' = q := by simpa using hin
      exact ⟨p', List.mem_cons_self, hq.bracket⟩

section

variable {s : Stage β (World τ)}

theorem Watched.orderly (h : Watched c may s) : Orderly s.rest.client.phase s.rest.history := by
  have hstart : Orderly .idle [] := ⟨trivial, fun _ hm => absurd hm (Option.not_mem_none _)⟩
  exact h.induction (P := fun w => Orderly w.client.phase w.history) (fun _ _ _ _ => hstart) fun hw ht => ht.orderly hw

/-- A client with observers, whose instruments can all be asked for, tells of the beginning and of the end
of a connection by turns, a beginning first, and is connected exactly if it told of a beginning last. The
end is said to be the user's just after the client has been told to disconnect, and then it was connected.
To every other end it answers at once: a reconnect is planned, or it gives up once. -/
theorem lifecycle_bracketed (h : Watched c (Use.Names fun id => Utf8.wellFormed id = true) s) :
    (brackets s.rest.history ++ [false]).IsChain (· ≠ ·) ∧
    (s.rest.client.phase = .connected ↔ (brackets s.rest.history).head? = some true) ∧
    ∀ newer m older byUser connected, s.rest.history = newer ++ m :: older →
      m.deed = .publishes (.disconnected byUser connected) →
      if byUser = true then connected = true ∧ ∃ p ∈ older.head?, p.deed = .disconnects
      else Answered s.rest.client.phase newer := by
  have horderly : Orderly s.rest.client.phase s.rest.history := h.orderly
  have hbracketed : (∀ id ∈ s.rest.client.watchlist.ids, Utf8.wellFormed id = true) ∧ Bracketed s.rest := by
    refine h.induction (P := fun w => (∀ id ∈ w.client.watchlist.ids, Utf8.wellFormed id = true) ∧ Bracketed w) ?_ ?_
    · intro settings endpoint outside epoch
      have hnone : (brackets []).head? ≠ some true := by simp [brackets]
      exact ⟨fun _ hid => absurd hid List.not_mem_nil, ⟨.singleton _, iff_of_false Phase.noConfusion hnone⟩⟩
    · exact fun hw ht => ⟨fun id hid => (ht.ids id hid).elim (hw.1 id) fun hmay => hmay, ht.bracketed hw.1 hw.2⟩
  refine ⟨hbracketed.2.alternating, hbracketed.2.last, ?_⟩
  intro newer m older byUser connected hhistory hd
  rw [hhistory] at horderly
  cases byUser with
  | true =>
    rw [if_pos rfl]
    exact (horderly.fits.at).dismissed connected hd
  | false =>
    rw [if_neg Bool.false_ne_true]
    exact horderly.answered ⟨connected, hd⟩

end

namespace ScriptedLinks

/-- Whoever hears of something fails. -/
def failing : Event → Step (Stage Unit (World ScriptedLinks)) Unit := Stage.publish fun _ _ => throw .handler

/-- A link opens and closes, and both is heard. -/
def brokenRun : Stage Unit (World ScriptedLinks) :=
  played false {}
    { slots := [{ id := 1, kind := .connected, body := () }, { id := 2, kind := .disconnected, body := () }] } failing
    [.connect, .report 0 0 .opened, .subscribe (octets "A"), .report 0 0 .closed]

theorem brokenRun_bracketed :
    brackets brokenRun.rest.history = [false, true] ∧ brokenRun.rest.client.phase ≠ .connected ∧
    Answered brokenRun.rest.client.phase (brokenRun.rest.history.take 1) := by
  have hemit : Consumer (conduct false) (fun _ => False) failing := .hearing .deaf fun _ _ => .fail .handler
  have hnames : Utf8.wellFormed (octets "A") = true := by decide
  have hwatched : Watched (conduct false) (Use.Names fun id => Utf8.wellFormed id = true) brokenRun := by
    refine watched_played (conduct_blank (by decide) rfl (by decide)) hemit ?_
    simpa [Use.Names] using hnames
  obtain ⟨-, hlast, hends⟩ := lifecycle_bracketed hwatched
  have hbrackets : brackets brokenRun.rest.history = [false, true] := by decide +kernel
  let m : Moment := brokenRun.rest.history.getD 1 ⟨.standard, {}, .connects⟩
  have hhistory : brokenRun.rest.history = brokenRun.rest.history.take 1 ++ m :: brokenRun.rest.history.drop 2 := by
    decide +kernel
  have hd : m.deed = .publishes (.disconnected false true) := by decide +kernel
  refine ⟨hbrackets, ?_, hends _ _ _ _ _ hhistory hd⟩
  rw [ne_eq, hlast, hbrackets]
  decide

end ScriptedLinks

end QuoteFeed
