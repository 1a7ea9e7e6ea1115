import QuoteFeed.Connection
import QuoteFeed.Proofs.Conduct

/-!
The runs of a client. Its user, its links and its clock act on it in any order, and so do its
consumers whenever something is published: a consumer is any program that acts on the client by the
client's operations.
-/

namespace QuoteFeed

variable {β τ : Type} {net : Network τ}

/-- The state that a step leaves; a run that is too deep leaves everything as it was. -/
def Step.after {σ α : Type} (x : Step σ α) (s : σ) : σ := (x.outcome s).elim s Prod.snd

inductive Use where
  | connect
  | disconnect
  | subscribe (id : Octets)
  | unsubscribe (name : Naming)
  /-- One of the callbacks that a link was ever given is called. -/
  | report (link index : Nat) (report : Report)

namespace Use

def perform (c : Conduct net) (emit : Event → Step (Stage β (World τ)) Unit) : Use → Step (Stage β (World τ)) Unit
  | connect => Client.connect net emit
  | disconnect => Client.disconnect net emit
  | subscribe id => Client.subscribe net emit id
  | unsubscribe name => Client.unsubscribe net emit name
  | report link index r => do
    match (c.attempts link (← get).rest.outside)[index]? with
    | some attempt => Client.receive net emit attempt r
    | none => pure ()

/-- Instruments are named by certain texts, or by their places on the list, behind which there are such texts. -/
def Names (p : Octets → Prop) : Use → Prop
  | subscribe id | unsubscribe (.own id) | unsubscribe (.listed _ id) => p id
  | connect | disconnect | report .. => True

instance {p : Octets → Prop} [DecidablePred p] : DecidablePred (Names p)
  | subscribe id | unsubscribe (.own id) | unsubscribe (.listed _ id) => inferInstanceAs (Decidable (p id))
  | connect | disconnect | report .. => isTrue trivial

/-- Instruments are named by certain texts, which are the user's own. -/
def Spells (p : Octets → Prop) : Use → Prop
  | subscribe id | unsubscribe (.own id) => p id
  | unsubscribe (.listed ..) => False
  | connect | disconnect | report .. => True

instance {p : Octets → Prop} [DecidablePred p] : DecidablePred (Spells p)
  | subscribe id | unsubscribe (.own id) => inferInstanceAs (Decidable (p id))
  | unsubscribe (.listed ..) => isFalse id
  | connect | disconnect | report .. => isTrue trivial

end Use

/-- A program that acts on a client by uses that it may make, on the bus in any way, and on the
world outside without harm. -/
inductive Uses (c : Conduct net) (may : Use → Prop) (emit : Event → Step (Stage β (World τ)) Unit) :
    {α : Type} → Step (Stage β (World τ)) α → Prop
  | pure {α : Type} (a : α) : Uses c may emit (pure a : Step (Stage β (World τ)) α)
  | fail {α : Type} (e : Failure) : Uses c may emit (throw e : Step (Stage β (World τ)) α)
  | hang {α : Type} : Uses c may emit (Step.exhausted : Step (Stage β (World τ)) α)
  | bind {α γ : Type} {x : Step (Stage β (World τ)) α} {f : α → Step (Stage β (World τ)) γ} :
      Uses c may emit x → (∀ a, Uses c may emit (f a)) → Uses c may emit (x >>= f)
  | tryCatch {α : Type} {x : Step (Stage β (World τ)) α} {handle : Failure → Step (Stage β (World τ)) α} :
      Uses c may emit x → (∀ e, Uses c may emit (handle e)) → Uses c may emit (tryCatch x handle)
  | look : Uses c may emit (get : Step (Stage β (World τ)) (Stage β (World τ)))
  | arrange (f : Stage β (World τ) → Stage β (World τ)) (hf : ∀ s, (f s).rest = s.rest) : Uses c may emit (modify f)
  | stir (f : τ → τ) (hf : ∀ t, c.Alike t (f t)) : Uses c may emit (Client.changeOutside f)
  | publish (e : Event) : Uses c may emit (emit e)
  | act (op : Use) (hop : may op) : Uses c may emit (op.perform c emit)

/-- A way to publish: the bus calls handlers, whose bodies are programs that publish in such a way
in turn. -/
inductive Consumer (c : Conduct net) (may : Use → Prop) : (Event → Step (Stage β (World τ)) Unit) → Prop
  | deaf : Consumer c may fun _ => Step.exhausted
  | hearing {emit : Event → Step (Stage β (World τ)) Unit} {run : Slot β → Event → Step (Stage β (World τ)) Unit} :
      Consumer c may emit → (∀ slot e, Uses c may emit (run slot e)) → Consumer c may (Stage.publish run)

/-- A wait ends: one that is armed, or, belatedly, one whose place another has taken or that was
given up. -/
inductive Lapses (w : World τ) (v : Wait) : World τ → Prop
  | due : v ∈ w.clock.waits → Lapses w v { w with clock := w.clock.expire v }
  | late : (∀ u ∈ w.clock.waits, u.timer = v.timer → u.number ≠ v.number) → Lapses w v w

/-- The states that a client is left in between what is done with it, given what may be done from
outside and by its consumers. -/
inductive Reached (c : Conduct net) (may : Use → Prop) : Stage β (World τ) → Prop
  | start {settings : Settings} {client : Client} {t : τ} (bus : Bus β) (journal : List Entry) (epoch : Instant) :
      Client.create settings true = .ok client → c.Blank t →
      Reached c may { bus, journal, rest := { client, outside := t, epoch } }
  | use {α : Type} {s t : Stage β (World τ)} {emit : Event → Step (Stage β (World τ)) Unit}
      {x : Step (Stage β (World τ)) α} {r : Except Failure α} :
      Reached c may s → Consumer c may emit → Uses c may emit x → x.outcome s = some (r, t) →
      Reached c may t
  | pass {s : Stage β (World τ)} (now : Int) : Reached c may s →
      Reached c may { s with rest.clock.now := now }
  | lapse {s t : Stage β (World τ)} {emit : Event → Step (Stage β (World τ)) Unit} {v : Wait} {w : World τ}
      {r : Except Failure Unit} :
      Reached c may s → Consumer c may emit → Lapses s.rest v w →
      (Client.fire net emit v).outcome { s with rest := w } = some (r, t) → Reached c may t

section

variable {c : Conduct net} {may : Use → Prop} {emit : Event → Step (Stage β (World τ)) Unit}

theorem Reached.after {α : Type} {s : Stage β (World τ)} {x : Step (Stage β (World τ)) α} (hs : Reached c may s)
    (hemit : Consumer c may emit) (hx : Uses c may emit x) : Reached c may (x.after s) := by
  unfold Step.after
  cases ho : x.outcome s with
  | none => exact hs
  | some p => exact hs.use hemit hx ho

def quietly : Event → Step (Stage β (World τ)) Unit := Stage.publish fun _ _ => pure ()

theorem consumer_quietly : Consumer c may (quietly : Event → Step (Stage β (World τ)) Unit) :=
  .hearing .deaf fun _ _ => .pure ()

def Use.performAll (c : Conduct net) (emit : Event → Step (Stage β (World τ)) Unit) (ops : List Use) :
    Step (Stage β (World τ)) Unit :=
  ops.forM fun op => op.perform c emit

theorem Uses.forM {α : Type} {as : List α} {f : α → Step (Stage β (World τ)) PUnit}
    (h : ∀ a ∈ as, Uses c may emit (f a)) : Uses c may emit (as.forM f) := by
  induction as with
  | nil => exact .pure _
  | cons a as ih => exact (h a List.mem_cons_self).bind fun _ => ih fun b hb => h b (List.mem_cons_of_mem a hb)

theorem uses_performAll {ops : List Use} (h : ∀ op ∈ ops, may op) : Uses c may emit (Use.performAll c emit ops) :=
  .forM fun op hop => .act op (h op hop)

/-- What is allowed to some consumers may be allowed to them along with more. -/
theorem Uses.mono {may' : Use → Prop} (hmay : ∀ op, may op → may' op) {α : Type} {x : Step (Stage β (World τ)) α}
    (hx : Uses c may emit x) : Uses c may' emit x := by
  induction hx with
  | pure a => exact .pure a
  | fail e => exact .fail e
  | hang => exact .hang
  | bind _ _ ihx ihf => exact .bind ihx ihf
  | tryCatch _ _ ihx ihh => exact .tryCatch ihx ihh
  | look => exact .look
  | arrange f hf => exact .arrange f hf
  | stir f hf => exact .stir f hf
  | publish e => exact .publish e
  | act op hop => exact .act op (hmay op hop)

theorem Consumer.mono {may' : Use → Prop} (hmay : ∀ op, may op → may' op) (h : Consumer c may emit) :
    Consumer c may' emit := by
  induction h with
  | deaf => exact .deaf
  | hearing _ hrun ih => exact .hearing ih fun slot e => (hrun slot e).mono hmay

end

end QuoteFeed
