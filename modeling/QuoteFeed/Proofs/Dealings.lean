import QuoteFeed.Proofs.Changes
import QuoteFeed.Proofs.Ends
import QuoteFeed.Proofs.Runs

/-!
How a client deals with whatever is around it. It does nothing to its links and tells its consumers of nothing
without remembering it in the same step, and every operation is put together from such steps. What each kind of
step does is what operations do, whoever the consumers are.
-/

namespace QuoteFeed

variable {β τ : Type}

/-- The deeds that can be seen from outside. -/
def Deed.isOutward : Deed → Bool
  | asks | dials _ | sends .. | closes _ | measures .. | publishes _ => true
  | hears _ | connects | disconnects | replays _ => false

/-- What becomes of the world outside when a client does something to it. -/
inductive Network.Does (net : Network τ) : {α : Type} → Deed → Effect τ α → Prop
  | asks : Does net .asks net.create
  | dials (link : Nat) (endpoint : Endpoint) : Does net (.dials link) (net.dial link endpoint)
  | sends (link : Nat) (frame : Octets) : Does net (.sends link frame) (net.send link frame)
  | closes (link : Nat) : Does net (.closes link) (net.close link)
  | measures (name : Octets) (value : Binary64) : Does net (.measures name value) (net.sample name value)

/-- Two programs that do the same, each of which tells consumers of its own. -/
inductive Deals (net : Network τ) (emit emit' : Event → Step (Stage β (World τ)) Unit) :
    {α : Type} → Step (Stage β (World τ)) α → Step (Stage β (World τ)) α → Prop
  | pure {α : Type} (a : α) : Deals net emit emit' (pure a : Step (Stage β (World τ)) α) (pure a)
  | throw {α : Type} (e : Failure) : Deals net emit emit' (throw e : Step (Stage β (World τ)) α) (throw e)
  | bind {α γ : Type} {x y : Step (Stage β (World τ)) α} {f g : α → Step (Stage β (World τ)) γ} :
      Deals net emit emit' x y → (∀ a, Deals net emit emit' (f a) (g a)) → Deals net emit emit' (x >>= f) (y >>= g)
  | tryCatch {α : Type} {x y : Step (Stage β (World τ)) α} {f g : Failure → Step (Stage β (World τ)) α} :
      Deals net emit emit' x y → (∀ e, Deals net emit emit' (f e) (g e)) →
      Deals net emit emit' (tryCatch x f) (tryCatch y g)
  | look : Deals net emit emit' (get : Step (Stage β (World τ)) (Stage β (World τ))) get
  /-- The client and its clock change, and nothing else. -/
  | alter (f : World τ → World τ) (hf : ∀ w, (f w).history = w.history ∧ (f w).outside = w.outside) :
      Deals net emit emit' (modify fun s => { s with rest := f s.rest }) (modify fun s => { s with rest := f s.rest })
  | attach (link attempt : Nat) : Deals net emit emit' (Client.changeOutside (net.attach link attempt))
      (Client.changeOutside (net.attach link attempt))
  | detach (link : Nat) :
      Deals net emit emit' (Client.changeOutside (net.detach link)) (Client.changeOutside (net.detach link))
  | remember {d : Deed} (hd : d.isOutward = false) : Deals net emit emit' (Client.remember d) (Client.remember d)
  | does {α : Type} {d : Deed} {effect : Effect τ α} (hd : net.Does d effect) :
      Deals net emit emit' (Client.outside d effect) (Client.outside d effect)
  | tell (e : Event) : Deals net emit emit' (Client.tell emit e) (Client.tell emit' e)

namespace Deals

variable {net : Network τ} {emit emit' : Event → Step (Stage β (World τ)) Unit} {α γ : Type}
  {x y : Step (Stage β (World τ)) α}

theorem ite {p : Prop} [Decidable p] {x' y' : Step (Stage β (World τ)) α} (hx : Deals net emit emit' x y)
    (hy : Deals net emit emit' x' y') : Deals net emit emit' (if p then x else x') (if p then y else y') := by
  by_cases hp : p
  · rwa [if_pos hp, if_pos hp]
  · rwa [if_neg hp, if_neg hp]

theorem recover {f g : Failure → Step (Stage β (World τ)) α} (hx : Deals net emit emit' x y)
    (hf : ∀ e, Deals net emit emit' (f e) (g e)) : Deals net emit emit' (Step.recover x f) (Step.recover y g) :=
  hx.tryCatch fun e => .ite (hf e) (.throw e)

theorem ofExcept (r : Except Failure α) :
    Deals net emit emit' (Step.ofExcept r : Step (Stage β (World τ)) α) (Step.ofExcept r) := by
  cases r with
  | ok a => exact .pure a
  | error e => exact .throw e

theorem raise (e : Option Failure) :
    Deals net emit emit' (Step.raise e : Step (Stage β (World τ)) Unit) (Step.raise e) := by
  cases e with
  | none => exact .pure ()
  | some e => exact .throw e

theorem forM {as : List γ} {f g : γ → Step (Stage β (World τ)) PUnit} (hf : ∀ a, Deals net emit emit' (f a) (g a)) :
    Deals net emit emit' (as.forM f) (as.forM g) := by
  induction as with
  | nil => exact .pure _
  | cons a as ih => exact (hf a).bind fun _ => ih

theorem current : Deals net emit emit' (Client.current : Step (Stage β (World τ)) Client) Client.current :=
  look.bind fun _ => .pure _

theorem change (f : Client → Client) :
    Deals net emit emit' (Client.change f : Step (Stage β (World τ)) Unit) (Client.change f) :=
  .alter (fun w => { w with client := f w.client }) fun _ => ⟨rfl, rfl⟩

theorem changeClock (f : Clock → Clock) :
    Deals net emit emit' (Client.changeClock f : Step (Stage β (World τ)) Unit) (Client.changeClock f) :=
  .alter (fun w => { w with clock := f w.clock }) fun _ => ⟨rfl, rfl⟩

theorem changeHeartbeat (f : Heartbeat → Clock → Heartbeat × Clock) :
    Deals net emit emit' (Client.changeHeartbeat f : Step (Stage β (World τ)) Unit) (Client.changeHeartbeat f) :=
  .alter (fun w => w.paced f) fun _ => ⟨rfl, rfl⟩

theorem wallClock : Deals net emit emit' (Client.wallClock : Step (Stage β (World τ)) Instant) Client.wallClock :=
  look.bind fun _ => .pure _

end Deals

namespace Client

variable (net : Network τ) (emit emit' : Event → Step (Stage β (World τ)) Unit)

theorem measure_deals (name : Octets) (value : Binary64) :
    Deals net emit emit' (measure net name value) (measure net name value) :=
  .does (.measures name value)

theorem retire_deals (closing : Bool) : Deals net emit emit' (retire net closing) (retire net closing) := by
  refine .bind .current fun c => ?_
  cases c.link with
  | none => exact .pure ()
  | some link =>
    refine .bind (.change _) fun _ => .bind (.detach link) fun _ => .ite ?_ (.pure ())
    exact .recover (.bind (.does (.closes link)) fun e => .raise e) fun _ => .pure ()

theorem cancelReconnect_deals : Deals net emit emit' cancelReconnect cancelReconnect :=
  .bind (.change _) fun _ => .changeClock _

theorem halt_deals : Deals net emit emit' (halt net) (halt net) :=
  (cancelReconnect_deals net emit emit').bind fun _ => .bind (.changeHeartbeat _) fun _ =>
    retire_deals net emit emit' true

theorem send_deals (frame : Octets) : Deals net emit emit' (send net emit frame) (send net emit' frame) := by
  refine .bind .current fun c => ?_
  cases c.link with
  | none => exact .pure ()
  | some link => exact .recover (.bind (.does (.sends link frame)) fun e => .raise e) fun _ => .tell _

theorem sendWritten_deals (frame : Except Json.Error Octets) :
    Deals net emit emit' (sendWritten net emit frame) (sendWritten net emit' frame) :=
  .bind (.ofExcept _) fun _ => send_deals net emit emit' _

theorem scheduleReconnect_deals : Deals net emit emit' (scheduleReconnect net emit) (scheduleReconnect net emit') := by
  refine .bind .current fun c => .ite (.ite (.tell _) ?_) (.pure ())
  refine .bind (.change _) fun _ => (measure_deals net emit emit' _ _).bind fun _ => .bind (.change _) fun _ => ?_
  exact .bind .current fun _ => .changeClock _

theorem handleOpen_deals : Deals net emit emit' (handleOpen net emit) (handleOpen net emit') := by
  refine .bind .current fun c => .ite ?_ (.pure ())
  refine .bind (.change _) fun _ => .bind .current fun _ => .bind (.ofExcept _) fun _ => ?_
  refine (Deals.forM fun _ => .bind (.remember rfl) fun _ => send_deals net emit emit' _).bind fun _ => ?_
  exact .bind .current fun _ => .bind (.changeHeartbeat _) fun _ => .bind .current fun _ => .tell _

theorem handleClose_deals : Deals net emit emit' (handleClose net emit) (handleClose net emit') := by
  refine .bind .current fun c => .bind (.changeHeartbeat _) fun _ => ?_
  refine (retire_deals net emit emit' false).bind fun _ => ?_
  exact .bind (.change _) fun _ => .bind (.tell _) fun _ => scheduleReconnect_deals net emit emit'

theorem receiveQuote_deals (q : Quote) : Deals net emit emit' (receiveQuote emit q) (receiveQuote emit' q) := by
  have hmove : ∀ m : MoveSignal, Deals net emit emit' (do
      tell emit (.significantMove m)
      tell emit (.price q)) (do
      tell emit' (.significantMove m)
      tell emit' (.price q)) :=
    fun _ => .bind (.tell _) fun _ => .tell _
  refine .bind .current fun c => ?_
  rcases c.board.update q with ⟨⟨_ | stale, _ | move⟩, board⟩
  · exact .bind (.change _) fun _ => .tell _
  · exact .bind (.change _) fun _ => hmove move
  · exact .bind (.change _) fun _ => .bind (.tell _) fun _ => .tell _
  · exact .bind (.change _) fun _ => .bind (.tell _) fun _ => hmove move

theorem receiveMessage_deals (m : Message) :
    Deals net emit emit' (receiveMessage net emit m) (receiveMessage net emit' m) := by
  cases m with
  | price q => exact receiveQuote_deals net emit emit' q
  | orderBook => exact .tell _
  | trade => exact .tell _
  | heartbeat => exact .changeHeartbeat Heartbeat.refresh
  | unknown => exact (measure_deals net emit emit' _ _).bind fun _ => .tell _

theorem receiveFrame_deals (payload : Octets) :
    Deals net emit emit' (receiveFrame net emit payload) (receiveFrame net emit' payload) := by
  refine (measure_deals net emit emit' _ _).bind fun _ => .bind .wallClock fun arrival => ?_
  cases Message.ofFrame arrival payload with
  | ok m => exact receiveMessage_deals net emit emit' m
  | error e => exact (measure_deals net emit emit' _ _).bind fun _ => .tell _

theorem receive_deals (attempt : Nat) (r : Report) :
    Deals net emit emit' (receive net emit attempt r) (receive net emit' attempt r) := by
  refine .bind .current fun c => .ite (.bind (.remember rfl) fun _ => ?_) (.pure ())
  cases r with
  | opened => exact handleOpen_deals net emit emit'
  | closed => exact handleClose_deals net emit emit'
  | error text => exact .tell _
  | frame payload => exact receiveFrame_deals net emit emit' payload

theorem receiveFrom_deals (link : Nat) (r : Report) :
    Deals net emit emit' (receiveFrom net emit link r) (receiveFrom net emit' link r) := by
  refine .bind .look fun s => ?_
  cases net.attached? link s.rest.outside with
  | none => exact .pure ()
  | some attempt => exact receive_deals net emit emit' attempt r

theorem dial_deals (attempt : Nat) : Deals net emit emit' (dial net emit attempt) (dial net emit' attempt) := by
  refine .bind (.does .asks) fun r => .bind (.ofExcept r) fun link? => ?_
  cases link? with
  | none => exact .throw _
  | some link =>
    refine .bind (.change _) fun _ => .bind (.attach link attempt) fun _ => .bind .current fun c => ?_
    refine .bind (.does (.dials link c.endpoint)) fun _ => ?_
    exact (Deals.forM fun r => receiveFrom_deals net emit emit' link r).bind fun _ => .raise _

theorem abandon_deals (attempt : Nat) (e : Failure) :
    Deals net emit emit' (abandon net emit attempt e) (abandon net emit' attempt e) := by
  refine .bind (.tell _) fun _ => .bind .current fun c => .ite ?_ (.pure ())
  refine (retire_deals net emit emit' true).bind fun _ => .bind (.change _) fun _ => ?_
  exact .bind (.tell _) fun _ => scheduleReconnect_deals net emit emit'

theorem startAttempt_deals : Deals net emit emit' (startAttempt net emit) (startAttempt net emit') :=
  .bind (.change _) fun _ => .bind .current fun c =>
    (dial_deals net emit emit' c.attempt).recover fun e => abandon_deals net emit emit' c.attempt e

theorem connect_deals : Deals net emit emit' (connect net emit) (connect net emit') := by
  refine .bind (.remember rfl) fun _ => .bind .current fun c => ?_
  cases c.phase with
  | connecting => exact .pure ()
  | connected => exact .pure ()
  | reconnectScheduled => exact (cancelReconnect_deals net emit emit').bind fun _ => startAttempt_deals net emit emit'
  | idle => exact .bind (.change _) fun _ => startAttempt_deals net emit emit'
  | disconnected => exact .bind (.change _) fun _ => startAttempt_deals net emit emit'

theorem disconnect_deals : Deals net emit emit' (disconnect net emit) (disconnect net emit') := by
  refine .bind .current fun c => (halt_deals net emit emit').bind fun _ => .bind (.change _) fun _ => ?_
  exact .bind (.remember rfl) fun _ => .ite (.tell _) (.pure ())

theorem takeDown_deals : Deals net emit emit' (takeDown net) (takeDown net) :=
  (halt_deals net emit emit').bind fun _ => .change _

theorem subscribe_deals (id : Octets) : Deals net emit emit' (subscribe net emit id) (subscribe net emit' id) := by
  refine .bind .current fun c => .ite ?_ (.pure ())
  exact .bind (.change _) fun _ => .bind .current fun _ => .ite (sendWritten_deals net emit emit' _) (.pure ())

theorem unsubscribe_deals (name : Naming) :
    Deals net emit emit' (unsubscribe net emit name) (unsubscribe net emit' name) := by
  refine .bind .current fun c => .ite ?_ (.pure ())
  exact .bind (.change _) fun _ => .bind .current fun _ => .ite (sendWritten_deals net emit emit' _) (.pure ())

theorem fire_deals (w : Wait) : Deals net emit emit' (fire net emit w) (fire net emit' w) := by
  refine .bind .current fun c => ?_
  cases w.timer with
  | heartbeat => exact .ite (.bind (.changeHeartbeat _) fun _ => sendWritten_deals net emit emit' _) (.pure ())
  | reconnect => exact .ite (startAttempt_deals net emit emit') (.pure ())
  | shutdown => exact .pure ()

theorem perform_deals {c : Conduct net} (op : Use) : Deals net emit emit' (op.perform c emit) (op.perform c emit') := by
  cases op with
  | connect => exact connect_deals net emit emit'
  | disconnect => exact disconnect_deals net emit emit'
  | subscribe id => exact subscribe_deals net emit emit' id
  | unsubscribe name => exact unsubscribe_deals net emit emit' name
  | report link index r =>
    refine .bind .look fun s => ?_
    cases (c.attempts link s.rest.outside)[index]? with
    | none => exact .pure ()
    | some attempt => exact receive_deals net emit emit' attempt r

end Client

end QuoteFeed
