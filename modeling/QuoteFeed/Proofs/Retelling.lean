import QuoteFeed.Proofs.Changes
import QuoteFeed.Proofs.Runs

/-!
What a client does depends neither on the numbers that its waits for a reconnect carry nor on what it
has done so far. A step that is run in a world retold with other numbers and with more of a past
comes to the same, retold.
-/

namespace QuoteFeed

variable {β τ : Type}

section

variable (k : Nat)

def Wait.renumbered (w : Wait) : Wait := if w.timer = .reconnect then { w with number := w.number + k } else w

def Clock.renumbered (c : Clock) : Clock := { c with waits := c.waits.map (Wait.renumbered k) }

def Client.renumbered (c : Client) : Client := { c with waitNumber := c.waitNumber + k }

def Moment.renumbered (m : Moment) : Moment where
  client := m.client.renumbered k
  clock := m.clock.renumbered k
  deed := m.deed

/-- The world in which waits for a reconnect carry numbers that are greater by some amount, and in
which something has been done before all else. -/
def World.retold (past : List Moment) (w : World τ) : World τ where
  client := w.client.renumbered k
  clock := w.clock.renumbered k
  outside := w.outside
  epoch := w.epoch
  history := w.history.map (Moment.renumbered k) ++ past

def Stage.retold (past : List Moment) (s : Stage β (World τ)) : Stage β (World τ) :=
  { s with rest := s.rest.retold k past }

end

namespace Clock

variable {k : Nat} {c : Clock} {timer : Timer} {number : Nat} {delay : Int}

end Clock

/-- A change of the heartbeat and the clock that does not look at waits for a reconnect. -/
def Heartbeat.Aloof (k : Nat) (f : Heartbeat → Clock → Heartbeat × Clock) : Prop :=
  ∀ h c, f h (c.renumbered k) = ((f h c).1, (f h c).2.renumbered k)

namespace Heartbeat

variable {k : Nat}

end Heartbeat

/-- The second step does in the world that is retold what the first one does in the world itself. -/
def Retells {α : Type} (k : Nat) (past : List Moment) (x y : Step (Stage β (World τ)) α) : Prop :=
  ∀ s, y.outcome (s.retold k past) = (x.outcome s).map fun p => (p.1, p.2.retold k past)

namespace Retells

variable {α γ : Type} {k : Nat} {past : List Moment} {x y : Step (Stage β (World τ)) α}

theorem pure (a : α) : Retells k past (pure a : Step (Stage β (World τ)) α) (pure a) := fun _ => rfl

theorem throw (e : Failure) : Retells k past (throw e : Step (Stage β (World τ)) α) (throw e) := fun _ => rfl

theorem bind {f g : α → Step (Stage β (World τ)) γ} (hx : Retells k past x y) (hf : ∀ a, Retells k past (f a) (g a)) :
    Retells k past (x >>= f) (y >>= g) := by
  intro s
  rw [Step.outcome_bind, Step.outcome_bind, hx s]
  rcases x.outcome s with _ | ⟨e | a, t⟩
  · rfl
  · rfl
  · exact hf a t

theorem tryCatch {f g : Failure → Step (Stage β (World τ)) α} (hx : Retells k past x y)
    (hf : ∀ e, Retells k past (f e) (g e)) : Retells k past (tryCatch x f) (tryCatch y g) := by
  intro s
  rw [Step.outcome_tryCatch, Step.outcome_tryCatch, hx s]
  rcases x.outcome s with _ | ⟨e | a, t⟩
  · rfl
  · exact hf e t
  · rfl

theorem ite {p : Prop} [Decidable p] {x' y' : Step (Stage β (World τ)) α} (hx : Retells k past x y)
    (hy : Retells k past x' y') : Retells k past (if p then x else x') (if p then y else y') := by
  by_cases hp : p
  · rwa [if_pos hp, if_pos hp]
  · rwa [if_neg hp, if_neg hp]

theorem recover {f g : Failure → Step (Stage β (World τ)) α} (hx : Retells k past x y)
    (hf : ∀ e, Retells k past (f e) (g e)) : Retells k past (Step.recover x f) (Step.recover y g) :=
  hx.tryCatch fun e => .ite (hf e) (.throw e)

theorem ofExcept (r : Except Failure α) :
    Retells k past (Step.ofExcept r : Step (Stage β (World τ)) α) (Step.ofExcept r) := by
  cases r with
  | ok a => exact .pure a
  | error e => exact .throw e

theorem raise (e : Option Failure) : Retells k past (Step.raise e : Step (Stage β (World τ)) Unit) (Step.raise e) := by
  cases e with
  | none => exact .pure ()
  | some e => exact .throw e

theorem forM {as : List γ} {f g : γ → Step (Stage β (World τ)) PUnit} (hf : ∀ a, Retells k past (f a) (g a)) :
    Retells k past (as.forM f) (as.forM g) := by
  induction as with
  | nil => exact .pure _
  | cons a as ih => exact (hf a).bind fun _ => ih

theorem look {f g : Stage β (World τ) → Step (Stage β (World τ)) α} (hsame : ∀ s, g (s.retold k past) = g s)
    (hf : ∀ s, Retells k past (f s) (g s)) : Retells k past (get >>= f) (get >>= g) := by
  intro s
  have hlook : (get >>= g).outcome (s.retold k past) = (g (s.retold k past)).outcome (s.retold k past) := rfl
  rw [hlook, hsame]
  exact hf s s

theorem current_renumbered {f g : Client → Step (Stage β (World τ)) α}
    (hf : ∀ c, Retells k past (f c) (g (c.renumbered k))) :
    Retells k past (Client.current >>= f) (Client.current >>= g) :=
  fun s => hf s.rest.client s

/-- What comes after a look at the client need not go by the number of the wait. -/
theorem current {f g : Client → Step (Stage β (World τ)) α} (hsame : ∀ c, g (c.renumbered k) = g c)
    (hf : ∀ c, Retells k past (f c) (g c)) : Retells k past (Client.current >>= f) (Client.current >>= g) := by
  refine .current_renumbered fun c => ?_
  rw [hsame]
  exact hf c

theorem change {f g : Client → Client} (h : ∀ c, g (c.renumbered k) = (f c).renumbered k) :
    Retells k past (Client.change f : Step (Stage β (World τ)) Unit) (Client.change g) := by
  intro s
  have hclient : g (s.retold k past).rest.client = (f s.rest.client).renumbered k := h s.rest.client
  simp only [Client.change, Step.outcome_modify, hclient]
  rfl

theorem changeClock {f g : Clock → Clock} (h : ∀ c, g (c.renumbered k) = (f c).renumbered k) :
    Retells k past (Client.changeClock f : Step (Stage β (World τ)) Unit) (Client.changeClock g) := by
  intro s
  have hclock : g (s.retold k past).rest.clock = (f s.rest.clock).renumbered k := h s.rest.clock
  simp only [Client.changeClock, Step.outcome_modify, hclock]
  rfl

theorem changeHeartbeat {f : Heartbeat → Clock → Heartbeat × Clock} (h : Heartbeat.Aloof k f) :
    Retells k past (Client.changeHeartbeat f : Step (Stage β (World τ)) Unit) (Client.changeHeartbeat f) := by
  intro s
  have hpaced : f (s.retold k past).rest.client.heartbeat (s.retold k past).rest.clock = _ :=
    h s.rest.client.heartbeat s.rest.clock
  simp only [Client.changeHeartbeat, Step.outcome_modify, hpaced]
  rfl

theorem changeOutside (f : τ → τ) :
    Retells k past (Client.changeOutside f : Step (Stage β (World τ)) Unit) (Client.changeOutside f) := fun _ => rfl

theorem remember (d : Deed) :
    Retells k past (Client.remember d : Step (Stage β (World τ)) Unit) (Client.remember d) := fun _ => rfl

theorem outside (d : Deed) (effect : Effect τ α) :
    Retells k past (Client.outside d effect : Step (Stage β (World τ)) α) (Client.outside d effect) := fun _ => rfl

theorem wallClock : Retells k past (Client.wallClock : Step (Stage β (World τ)) Instant) Client.wallClock :=
  fun _ => rfl

end Retells

namespace Stage

variable {k : Nat} {past : List Moment} {run : Slot β → Event → Step (Stage β (World τ)) Unit}

end Stage

namespace Client

open Retells

variable {net : Network τ} {emit : Event → Step (Stage β (World τ)) Unit} {k : Nat} {past : List Moment}

section

variable (hemit : ∀ e, Retells k past (emit e) (emit e))
include hemit

end

end Client

end QuoteFeed
