import QuoteFeed.Proofs.Keeping
import QuoteFeed.Proofs.Lifecycle

/-!
Observers: consumers that do nothing with the client. They leave no trace but in the world outside,
so that the client comes to what it does by itself.
-/

namespace QuoteFeed

variable {β τ : Type} {net : Network τ} {c : Conduct net}

/-- The worlds differ at most in what is outside. -/
structure SameInside (w v : World τ) : Prop where
  client : v.client = w.client
  clock : v.clock = w.clock
  history : v.history = w.history

/-- The worlds differ at most in what is outside, and there in nothing that has to do with callbacks. -/
structure Stirred (c : Conduct net) (w v : World τ) : Prop extends SameInside w v where
  outside : c.Alike w.outside v.outside

/-- Whatever is published, the client does not notice. -/
def Observed (c : Conduct net) (emit : Event → Step (Stage β (World τ)) Unit) : Prop :=
  ∀ e s, (emit e).Ends s (fun _ t => Stirred c s.rest t.rest) fun _ _ => False

theorem Alike.trans {attempts : Nat → τ → List Nat} {fit : τ → Prop} {t u v : τ} (h : Alike net attempts fit t u)
    (h' : Alike net attempts fit u v) : Alike net attempts fit t v where
  attached link := (h'.attached link).trans (h.attached link)
  attempts link := (h'.attempts link).trans (h.attempts link)
  fit ht := h'.fit (h.fit ht)

section

variable {w v u : World τ}

theorem SameInside.trans (h : SameInside w v) (h' : SameInside v u) : SameInside w u where
  client := h'.client.trans h.client
  clock := h'.clock.trans h.clock
  history := h'.history.trans h.history

theorem Stirred.refl : Stirred c w w := ⟨⟨rfl, rfl, rfl⟩, c.alike_refl _⟩

theorem Stirred.trans (h : Stirred c w v) (h' : Stirred c v u) : Stirred c w u where
  toSameInside := h.toSameInside.trans h'.toSameInside
  outside := h.outside.trans h'.outside

theorem Stirred.sound (h : Stirred c w v) (hw : Sound c w) : Sound c v := by
  refine hw.of_same ?_ ?_ ?_ ?_ ?_ ?_ h.outside <;> simp only [h.client, h.clock]
  exact hw.idle

end

variable {emit : Event → Step (Stage β (World τ)) Unit} {s : Stage β (World τ)} {E : Failure → Stage β (World τ) → Prop}

/-- A program without uses leaves everything to the client, with a value or with a failure. -/
theorem Observed.uses (h : Observed c emit) {α : Type} {x : Step (Stage β (World τ)) α}
    (hx : Uses c (fun _ => False) emit x) {w : World τ} (hs : Stirred c w s.rest) :
    x.Ends s (fun _ t => Stirred c w t.rest) fun _ t => Stirred c w t.rest := by
  refine hx.keeps (P := Stirred c w) ?_ ?_ (fun hmay => hmay.elim) hs
  · exact fun hv ht => hv.trans ⟨⟨rfl, rfl, rfl⟩, ht⟩
  · exact fun e t ht => (h e t).mono (fun _ _ hu => ht.trans hu) fun _ _ he => he.elim

/-- Consumers that may do nothing with the client are observers. -/
theorem observed_of_consumer (h : Consumer c (fun _ => False) emit) : Observed c emit := by
  induction h with
  | deaf => exact fun _ _ => Step.ends_exhausted
  | hearing _ hrun ih =>
    intro e s
    simp only [Stage.publish, Step.ends_bind, Step.ends_get]
    exact Discipline.ends_deliver (fun slot _ ht => ih.uses (hrun slot e) ht) _ .refl

/-- Where a client stands, whatever its quotes, its pings and its counts are. -/
structure Stance where
  phase : Phase
  link : Option Nat
  attempt : Nat
  ticking : Bool
  watchlist : Watchlist

def Client.stance (client : Client) : Stance where
  phase := client.phase
  link := client.link
  attempt := client.attempt
  ticking := client.heartbeat.running
  watchlist := client.watchlist

/-- The step gives a value and leaves the client where it stands. -/
def Stays {α : Type} (x : Step (Stage β (World τ)) α) : Prop :=
  ∀ s, x.Ends s (fun _ t => t.rest.client.stance = s.rest.client.stance) fun _ _ => False

theorem Stays.bind {α γ : Type} {x : Step (Stage β (World τ)) α} {f : α → Step (Stage β (World τ)) γ}
    (hx : Stays x) (hf : ∀ a, Stays (f a)) : Stays (x >>= f) := by
  intro s
  refine Step.ends_bind.mpr ((hx s).mono ?_ fun _ _ he => he)
  intro a t ht
  exact (hf a t).mono (fun _ _ hu => hu.trans ht) fun _ _ he => he

theorem stays_current : Stays (Client.current : Step (Stage β (World τ)) Client) := fun _ => Client.ends_current.mpr rfl

theorem stays_wallClock : Stays (Client.wallClock : Step (Stage β (World τ)) Instant) :=
  fun _ => Client.ends_wallClock.mpr rfl

theorem stays_change {f : Client → Client} (hf : ∀ client, (f client).stance = client.stance) :
    Stays (Client.change f : Step (Stage β (World τ)) Unit) :=
  fun _ => Client.ends_change.mpr (hf _)

theorem stays_refresh : Stays (Client.changeHeartbeat Heartbeat.refresh : Step (Stage β (World τ)) Unit) := by
  intro s
  refine Client.ends_changeHeartbeat.mpr ?_
  simp only [Client.stance, World.paced, Heartbeat.refresh_running]

theorem stays_measure (name : Octets) (value : Binary64) :
    Stays (Client.measure net name value : Step (Stage β (World τ)) Unit) :=
  fun _ => Client.measure_ends.mono (fun _ _ ht => congrArg (fun w => w.client.stance) ht) fun _ _ he => he

namespace Observed

theorem tell (h : Observed c emit) {e : Event} :
    (Client.tell emit e).Ends s (fun _ t => Stirred c (s.rest.noted (.publishes e)) t.rest) E := by
  simp only [Client.tell, Step.ends_bind, Client.ends_remember]
  exact (h e _).mono (fun _ _ ht => ht) fun _ _ he => he.elim

theorem stays_tell (h : Observed c emit) (e : Event) : Stays (Client.tell emit e) :=
  fun _ => h.tell.mono (fun _ _ ht => congrArg Client.stance ht.client) fun _ _ he => he

theorem send (h : Observed c emit) {frame : Octets} (hfit : c.fit s.rest.outside) :
    (Client.send net emit frame).Ends s
      (fun _ t => c.fit t.rest.outside ∧ t.rest.client = s.rest.client) E := by
  refine Client.send_ends (Q := fun w => c.fit w.outside ∧ w.client = s.rest.client) hfit
    (fun _ => ⟨alike_sent.fit hfit, World.sent_client⟩) ?_
  intro link e t _ _ ht
  refine h.tell.mono ?_ fun _ _ he => he
  intro _ u hu
  have hclient : t.rest.client = s.rest.client := ht ▸ World.sent_client
  have hfit' : c.fit t.rest.outside := ht ▸ alike_sent.fit hfit
  exact ⟨hu.outside.fit hfit', hu.client.trans hclient⟩

theorem stays_receiveQuote (h : Observed c emit) (q : Quote) : Stays (Client.receiveQuote emit q) := by
  have hmove : ∀ m : MoveSignal, Stays (do
      Client.tell emit (.significantMove m)
      Client.tell emit (.price q)) :=
    fun m => (h.stays_tell (.significantMove m)).bind fun _ => h.stays_tell (.price q)
  unfold Client.receiveQuote
  refine stays_current.bind fun client => ?_
  rcases client.board.update q with ⟨signals, board⟩
  have hboard : Stays (Client.change fun client => { client with board } : Step (Stage β (World τ)) Unit) :=
    stays_change fun _ => rfl
  rcases signals with ⟨_ | stale, _ | move⟩
  · exact hboard.bind fun _ => h.stays_tell _
  · exact hboard.bind fun _ => hmove move
  · exact hboard.bind fun _ => (h.stays_tell _).bind fun _ => h.stays_tell _
  · exact hboard.bind fun _ => (h.stays_tell _).bind fun _ => hmove move

theorem stays_receiveMessage (h : Observed c emit) (m : Message) : Stays (Client.receiveMessage net emit m) := by
  cases m with
  | price q => exact h.stays_receiveQuote q
  | orderBook b => exact h.stays_tell _
  | trade t => exact h.stays_tell _
  | heartbeat => exact stays_refresh
  | unknown type raw => exact (stays_measure _ _).bind fun _ => h.stays_tell _

theorem stays_receiveFrame (h : Observed c emit) (payload : Octets) :
    Stays (Client.receiveFrame net emit payload) := by
  unfold Client.receiveFrame
  refine (stays_measure _ _).bind fun _ => stays_wallClock.bind fun arrival => ?_
  cases Message.ofFrame arrival payload with
  | ok m => exact h.stays_receiveMessage m
  | error e => exact (stays_measure _ _).bind fun _ => h.stays_tell _

/-- An opening for which all instruments can be asked leaves the client connected over the same link. -/
theorem handleOpen (h : Observed c emit) (hfit : c.fit s.rest.outside) (hp : s.rest.client.phase = .connecting)
    {frames : List Octets} (hf : s.rest.client.watchlist.replayFrames = .ok frames) :
    (Client.handleOpen net emit).Ends s
      (fun _ t => t.rest.client.phase = .connected ∧ t.rest.client.link = s.rest.client.link) fun _ _ => False := by
  simp only [Client.handleOpen, Step.ends_bind, Client.ends_current, Step.ends_ite, Step.ends_pure, Client.ends_change,
    Client.ends_changeHeartbeat, Step.ends_ofExcept, hf, Except.mapError, Except.ok.injEq, reduceCtorEq, false_implies,
    implies_true, and_true]
  refine ⟨?_, fun hn => absurd hp hn⟩
  rintro _ _ rfl
  refine (Step.ends_forM (P := fun _ t => c.fit t.rest.outside ∧ t.rest.client = s.rest.opened.client)
    ⟨hfit, rfl⟩ ?_).mono ?_ fun _ _ he => he
  · intro frame rest t ht
    simp only [Step.ends_bind, Client.ends_remember]
    refine (h.send (s := { t with rest := t.rest.noted (.replays frame) }) ht.1).mono ?_ fun _ _ he => he
    exact fun _ u hu => ⟨hu.1, hu.2.trans ht.2⟩
  · intro _ t ht
    refine h.tell.mono ?_ fun _ _ he => he
    intro _ u hu
    have hphase : t.rest.client.phase = .connected := congrArg Client.phase ht.2
    have hlink : t.rest.client.link = s.rest.client.link := (congrArg Client.link ht.2).trans rfl
    rw [hu.client]
    exact ⟨hphase, hlink⟩

end Observed

end QuoteFeed
