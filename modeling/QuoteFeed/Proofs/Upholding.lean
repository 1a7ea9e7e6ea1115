import QuoteFeed.Proofs.Keeping

/-!
Laws about what a client has heard and told, and about its quotes. Most of what a client does has nothing
to do with quotes, and keeps such a law as it is: only a frame and a disconnection have to be looked at.
-/

namespace QuoteFeed

variable {β τ : Type} {net : Network τ}

/-- Events about the connection. -/
def Event.IsNotice : Event → Prop
  | connected _ | disconnected _ _ | error _ => True
  | _ => False

/-- Deeds that have nothing to do with frames and quotes: no frame is heard, nothing told of one, and no quote
forgotten. -/
def Deed.IsAside : Deed → Prop
  | hears r => ∀ payload, r ≠ .frame payload
  | publishes e => e.IsNotice
  | disconnects => False
  | connects | asks | dials _ | replays _ | sends .. | closes _ | measures .. => True

/-- The step keeps a law, with a value or with a failure. -/
def Upholds {α : Type} (P : World τ → Prop) (x : Step (Stage β (World τ)) α) : Prop :=
  ∀ s, P s.rest → x.Ends s (fun _ t => P t.rest) fun _ t => P t.rest

section

variable {α γ : Type} {P : World τ → Prop} {x : Step (Stage β (World τ)) α}

theorem upholds_pure (a : α) : Upholds P (pure a : Step (Stage β (World τ)) α) := Step.preserves_pure a

theorem upholds_throw (e : Failure) : Upholds P (throw e : Step (Stage β (World τ)) α) := Step.preserves_throw e

theorem Upholds.bind {f : α → Step (Stage β (World τ)) γ} (hx : Upholds P x) (hf : ∀ a, Upholds P (f a)) :
    Upholds P (x >>= f) :=
  Step.Preserves.bind hx hf

theorem Upholds.ite {p : Prop} [Decidable p] {y : Step (Stage β (World τ)) α} (hx : Upholds P x) (hy : Upholds P y) :
    Upholds P (if p then x else y) :=
  Step.Preserves.ite hx hy

theorem Upholds.recover {handle : Failure → Step (Stage β (World τ)) α} (hx : Upholds P x)
    (hhandle : ∀ e, Upholds P (handle e)) : Upholds P (Step.recover x handle) :=
  Step.Preserves.recover hx hhandle

theorem upholds_ofExcept (r : Except Failure α) : Upholds P (Step.ofExcept r : Step (Stage β (World τ)) α) :=
  Step.preserves_ofExcept r

theorem upholds_raise (e : Option Failure) : Upholds P (Step.raise e : Step (Stage β (World τ)) Unit) :=
  Step.preserves_raise e

theorem upholds_forM {as : List α} {f : α → Step (Stage β (World τ)) PUnit} (hf : ∀ a, Upholds P (f a)) :
    Upholds P (as.forM f) :=
  Step.preserves_forM hf

theorem upholds_current : Upholds P (Client.current : Step (Stage β (World τ)) Client) :=
  fun _ hs => Client.ends_current.mpr hs

theorem upholds_wallClock : Upholds P (Client.wallClock : Step (Stage β (World τ)) Instant) :=
  fun _ hs => Client.ends_wallClock.mpr hs

end

variable {emit : Event → Step (Stage β (World τ)) Unit} {P : World τ → Prop}

/-- What a law about quotes has to say of what is published, of frames and of being disconnected; all
other deeds leave it as it is. -/
structure QuoteLaw (net : Network τ) (emit : Event → Step (Stage β (World τ)) Unit) (P : World τ → Prop) : Prop where
  of_same : ∀ {w v : World τ}, P w → v.client.board = w.client.board → v.epoch = w.epoch → v.history = w.history → P v
  aside : ∀ {w : World τ} {d : Deed}, P w → d.IsAside → P (w.noted d)
  emits : ∀ e, Upholds P (emit e)
  frame : ∀ payload, Upholds P (do
    Client.remember (.hears (.frame payload))
    Client.receiveFrame net emit payload)
  cleared : ∀ {w v : World τ}, P w → v.client.board = w.client.board.clear → v.epoch = w.epoch →
    v.history = w.history → P (v.noted .disconnects)

namespace QuoteLaw

theorem change (h : QuoteLaw net emit P) {f : Client → Client} (hf : ∀ client, (f client).board = client.board) :
    Upholds P (Client.change f : Step (Stage β (World τ)) Unit) :=
  fun _ hs => Client.ends_change.mpr (h.of_same hs (hf _) rfl rfl)

theorem changeHeartbeat (h : QuoteLaw net emit P) (f : Heartbeat → Clock → Heartbeat × Clock) :
    Upholds P (Client.changeHeartbeat f : Step (Stage β (World τ)) Unit) :=
  fun _ hs => Client.ends_changeHeartbeat.mpr (h.of_same hs rfl rfl rfl)

theorem changeClock (h : QuoteLaw net emit P) (f : Clock → Clock) :
    Upholds P (Client.changeClock f : Step (Stage β (World τ)) Unit) :=
  fun _ hs => Client.ends_changeClock.mpr (h.of_same hs rfl rfl rfl)

theorem changeOutside (h : QuoteLaw net emit P) (f : τ → τ) :
    Upholds P (Client.changeOutside f : Step (Stage β (World τ)) Unit) :=
  fun _ hs => Client.ends_changeOutside.mpr (h.of_same hs rfl rfl rfl)

theorem remember (h : QuoteLaw net emit P) {d : Deed} (hd : d.IsAside) :
    Upholds P (Client.remember d : Step (Stage β (World τ)) Unit) :=
  fun _ hs => Client.ends_remember.mpr (h.aside hs hd)

theorem outside (h : QuoteLaw net emit P) {α : Type} {d : Deed} (hd : d.IsAside) (effect : Effect τ α) :
    Upholds P (Client.outside d effect : Step (Stage β (World τ)) α) :=
  fun _ hs => Client.ends_outside.mpr (h.of_same (h.aside hs hd) rfl rfl rfl)

theorem measure (h : QuoteLaw net emit P) (name : Octets) (value : Binary64) :
    Upholds P (Client.measure net name value : Step (Stage β (World τ)) Unit) :=
  h.outside (by trivial) _

theorem tell (h : QuoteLaw net emit P) {e : Event} (he : e.IsNotice) : Upholds P (Client.tell emit e) :=
  (h.remember (d := .publishes e) he).bind fun _ => h.emits e

theorem retire (h : QuoteLaw net emit P) (closing : Bool) :
    Upholds P (Client.retire net closing : Step (Stage β (World τ)) Unit) := by
  unfold Client.retire
  refine upholds_current.bind fun c => ?_
  cases c.link with
  | none => exact upholds_pure _
  | some link =>
    refine (h.change fun _ => by rfl).bind fun _ => (h.changeOutside _).bind fun _ => .ite ?_ (upholds_pure _)
    exact ((h.outside (by trivial) _).bind fun e => upholds_raise e).recover fun _ => upholds_pure _

theorem cancelReconnect (h : QuoteLaw net emit P) :
    Upholds P (Client.cancelReconnect : Step (Stage β (World τ)) Unit) :=
  (h.change fun _ => by rfl).bind fun _ => h.changeClock _

theorem halt (h : QuoteLaw net emit P) : Upholds P (Client.halt net : Step (Stage β (World τ)) Unit) :=
  h.cancelReconnect.bind fun _ => (h.changeHeartbeat _).bind fun _ => h.retire true

theorem send (h : QuoteLaw net emit P) (frame : Octets) : Upholds P (Client.send net emit frame) := by
  unfold Client.send
  refine upholds_current.bind fun c => ?_
  cases c.link with
  | none => exact upholds_pure _
  | some link =>
    exact ((h.outside (by trivial) _).bind fun e => upholds_raise e).recover fun _ => h.tell (by trivial)

theorem sendWritten (h : QuoteLaw net emit P) (frame? : Except Json.Error Octets) :
    Upholds P (Client.sendWritten net emit frame?) :=
  (upholds_ofExcept _).bind fun frame => h.send frame

theorem scheduleReconnect (h : QuoteLaw net emit P) : Upholds P (Client.scheduleReconnect net emit) := by
  unfold Client.scheduleReconnect
  refine upholds_current.bind fun c => .ite (.ite (h.tell (by trivial)) ?_) (upholds_pure _)
  refine (h.change fun _ => by rfl).bind fun _ => (h.measure _ _).bind fun _ => ?_
  refine (h.change fun _ => by rfl).bind fun _ => ?_
  exact upholds_current.bind fun _ => h.changeClock _

theorem handleOpen (h : QuoteLaw net emit P) : Upholds P (Client.handleOpen net emit) := by
  unfold Client.handleOpen
  refine upholds_current.bind fun c => .ite ?_ (upholds_pure _)
  refine (h.change fun _ => by rfl).bind fun _ => upholds_current.bind fun _ => ?_
  refine (upholds_ofExcept _).bind fun frames => ?_
  refine (upholds_forM fun frame => (h.remember (by trivial)).bind fun _ => h.send frame).bind fun _ => ?_
  refine upholds_current.bind fun _ => (h.changeHeartbeat _).bind fun _ => upholds_current.bind fun _ => ?_
  exact h.tell (by trivial)

theorem handleClose (h : QuoteLaw net emit P) : Upholds P (Client.handleClose net emit) := by
  unfold Client.handleClose
  refine upholds_current.bind fun c => (h.changeHeartbeat _).bind fun _ => (h.retire false).bind fun _ => ?_
  exact (h.change fun _ => by rfl).bind fun _ => (h.tell (by trivial)).bind fun _ => h.scheduleReconnect

theorem receive (h : QuoteLaw net emit P) (attempt : Nat) (r : Report) :
    Upholds P (Client.receive net emit attempt r) := by
  unfold Client.receive
  refine upholds_current.bind fun c => .ite ?_ (upholds_pure _)
  cases r with
  | opened => exact (h.remember (d := .hears .opened) fun _ => Report.noConfusion).bind fun _ => h.handleOpen
  | closed => exact (h.remember (d := .hears .closed) fun _ => Report.noConfusion).bind fun _ => h.handleClose
  | error text =>
    exact (h.remember (d := .hears (.error text)) fun _ => Report.noConfusion).bind fun _ =>
      h.tell (by trivial)
  | frame payload => exact h.frame payload

theorem receiveFrom (h : QuoteLaw net emit P) (link : Nat) (r : Report) :
    Upholds P (Client.receiveFrom net emit link r) := by
  unfold Client.receiveFrom
  intro s hs
  simp only [Step.ends_bind, Step.ends_get]
  cases net.attached? link s.rest.outside with
  | none => exact Step.ends_pure.mpr hs
  | some attempt => exact h.receive attempt r s hs

theorem dial (h : QuoteLaw net emit P) (attempt : Nat) : Upholds P (Client.dial net emit attempt) := by
  unfold Client.dial
  refine (h.outside (by trivial) _).bind fun made => (upholds_ofExcept _).bind fun link? => ?_
  cases link? with
  | none => exact upholds_throw _
  | some link =>
    refine (h.change fun _ => by rfl).bind fun _ => (h.changeOutside _).bind fun _ => upholds_current.bind fun _ => ?_
    refine (h.outside (by trivial) _).bind fun ⟨reports, failure⟩ => ?_
    exact (upholds_forM fun r => h.receiveFrom link r).bind fun _ => upholds_raise failure

theorem abandon (h : QuoteLaw net emit P) (attempt : Nat) (failure : Failure) :
    Upholds P (Client.abandon net emit attempt failure) := by
  unfold Client.abandon
  refine (h.tell (by trivial)).bind fun _ => upholds_current.bind fun c => .ite ?_ (upholds_pure _)
  refine (h.retire true).bind fun _ => (h.change fun _ => by rfl).bind fun _ => ?_
  exact (h.tell (by trivial)).bind fun _ => h.scheduleReconnect

theorem startAttempt (h : QuoteLaw net emit P) : Upholds P (Client.startAttempt net emit) :=
  (h.change fun _ => by rfl).bind fun _ => upholds_current.bind fun _ => (h.dial _).recover fun e => h.abandon _ e

theorem connect (h : QuoteLaw net emit P) : Upholds P (Client.connect net emit) := by
  unfold Client.connect
  refine (h.remember (by trivial)).bind fun _ => upholds_current.bind fun c => ?_
  cases c.phase with
  | connecting => exact upholds_pure _
  | connected => exact upholds_pure _
  | reconnectScheduled => exact h.cancelReconnect.bind fun _ => h.startAttempt
  | idle => exact (h.change fun _ => by rfl).bind fun _ => h.startAttempt
  | disconnected => exact (h.change fun _ => by rfl).bind fun _ => h.startAttempt

theorem disconnect (h : QuoteLaw net emit P) : Upholds P (Client.disconnect net emit) := by
  unfold Client.disconnect
  refine upholds_current.bind fun c => h.halt.bind fun _ => ?_
  -- Between forgetting the quotes and remembering it the law may not hold.
  intro s hs
  simp only [Step.ends_bind, Client.ends_change, Client.ends_remember]
  refine (Upholds.ite (h.tell (by trivial)) (upholds_pure ())) _ ?_
  exact h.cleared hs rfl rfl rfl

theorem subscribe (h : QuoteLaw net emit P) (id : Octets) : Upholds P (Client.subscribe net emit id) := by
  unfold Client.subscribe
  refine upholds_current.bind fun c => ?_
  rcases c.watchlist.add id with ⟨isNew, watchlist⟩
  refine .ite ((h.change fun _ => by rfl).bind fun _ => upholds_current.bind fun c => ?_) (upholds_pure _)
  exact .ite (h.sendWritten _) (upholds_pure _)

theorem unsubscribe (h : QuoteLaw net emit P) (name : Naming) : Upholds P (Client.unsubscribe net emit name) := by
  unfold Client.unsubscribe
  refine upholds_current.bind fun c => ?_
  rcases c.watchlist.withdraw name with ⟨wasThere, watchlist⟩
  refine .ite ((h.change fun _ => by rfl).bind fun _ => upholds_current.bind fun c => ?_) (upholds_pure _)
  exact .ite (h.sendWritten _) (upholds_pure _)

theorem fire (h : QuoteLaw net emit P) (v : Wait) : Upholds P (Client.fire net emit v) := by
  unfold Client.fire
  refine upholds_current.bind fun c => ?_
  cases v.timer with
  | heartbeat => exact .ite ((h.changeHeartbeat _).bind fun _ => h.sendWritten _) (upholds_pure _)
  | reconnect => exact .ite h.startAttempt (upholds_pure _)
  | shutdown => exact upholds_pure _

variable {c : Conduct net}

theorem perform (h : QuoteLaw net emit P) (op : Use) : Upholds P (op.perform c emit) := by
  cases op with
  | connect => exact h.connect
  | disconnect => exact h.disconnect
  | subscribe id => exact h.subscribe id
  | unsubscribe name => exact h.unsubscribe name
  | report link index r =>
    intro s hs
    simp only [Use.perform, Step.ends_bind, Step.ends_get]
    cases (c.attempts link s.rest.outside)[index]? with
    | none => exact Step.ends_pure.mpr hs
    | some attempt => exact h.receive attempt r s hs

/-- Whatever is done with the client keeps the law. -/
theorem uses (h : QuoteLaw net emit P) {may : Use → Prop} {α : Type} {x : Step (Stage β (World τ)) α}
    (hx : Uses c may emit x) : Upholds P x :=
  fun _ hs => hx.keeps (fun hv _ => h.of_same hv rfl rfl rfl) h.emits (fun {op} _ => h.perform op) hs

end QuoteLaw

end QuoteFeed
