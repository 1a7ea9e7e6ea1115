import QuoteFeed.WireSession
import QuoteFeed.Proofs.Gives

/-!
What can happen to a connection that has been told to connect once: it is asked to send or to close, by
its user or inside its reports, and the operations that are pending end, each in its own time and with any
error or none.
-/

namespace QuoteFeed

def Task.wire : Task → Nat
  | finish w .. | send w _ | close w => w

/-- What a user can ask of the connection. -/
def Task.IsAsked : Task → Prop
  | finish .. => False
  | send w _ | close w => w = 0

namespace WireSession

/-- A report has been noted, and nothing else has been done but to ask for something. -/
structure Notified (r : Report) (s t : WireSession) : Prop where
  journal : t.journal = entry r :: s.journal
  wires : ∃ asked : List Task, (∀ task ∈ asked, task.IsAsked) ∧
    t.wires = { s.wires with tasks := s.wires.tasks ++ asked }
  reactions : t.reactions = s.reactions

/-- Callbacks that return, and that do nothing with the connection but to ask for something, as long as
this is what has been laid down for its reports. -/
def Courteous (reactions : List (Occasion × List WireOp)) (notify : Nat → Report → Step WireSession Unit) : Prop :=
  ∀ receiver r s, s.reactions = reactions → (notify receiver r).Gives s fun _ t => Notified r s t

/-- Callbacks in which nothing is done. -/
def quiet (_ : Nat) : Report → Step WireSession Unit := notify fun _ => pure ()

theorem courteous_quiet {reactions : List (Occasion × List WireOp)} : Courteous reactions quiet := by
  intro receiver r s _
  let noted : WireSession := { s with journal := entry r :: s.journal }
  simp only [quiet, notify, Step.gives_bind, Step.gives_modify, Step.gives_get]
  refine Step.gives_forM (P := Notified r s) (s := noted) ⟨rfl, ⟨[], by simp, by simp [noted]⟩, rfl⟩ ?_
  exact fun _ _ _ ht => Step.gives_pure.mpr ht

/-- A connection that has been told to connect, and nothing else. -/
def dialed (serverNameFails verifyHostFails : Bool) (reactions : List (Occasion × List WireOp))
    (endpoint : Endpoint) : WireSession :=
  let wires : Wires := { wires := [{ attached := some 0 }], serverNameFails, verifyHostFails }
  { wires := (wires.connect 0 endpoint).2.2, journal := (wires.connect 0 endpoint).2.1.reverse, reactions }

/-- A connection without encryption. -/
def plain : WireSession :=
  dialed false false [] { tls := false, host := octets "h", port := octets "81", target := octets "/p" }

/-- One thing happens: something is asked for, or an operation ends that is handled later, or the end of
one is handled at once, or what is to be done first is done. What is handled is told. -/
inductive Happens (s : WireSession) : Option Task → WireSession → Prop
  | asked (task : Task) : task.IsAsked → Happens s none { s with wires := s.wires.post task }
  | ended {notify : Nat → Report → Step WireSession Unit} {operation : Operation} {error : Option Octets}
      {data : Octets} {t : WireSession} :
      (Exchange.complete notify operation error data true).outcome s = some (.ok true, t) → Happens s none t
  | finished {notify : Nat → Report → Step WireSession Unit} {operation : Operation} {error : Option Octets}
      {data : Octets} {t : WireSession} :
      Courteous s.reactions notify →
      (Exchange.complete notify operation error data false).outcome s = some (.ok true, t) →
      Happens s (some (.finish 0 operation error)) t
  | polled {notify : Nat → Report → Step WireSession Unit} {task : Task} {rest : List Task} {t : WireSession} :
      Courteous s.reactions notify → s.wires.tasks = task :: rest →
      (Exchange.perform notify task).outcome { s with wires := { s.wires with tasks := rest } } = some (.ok (), t) →
      Happens s (some task) t

/-- One thing after another happens. What is handled is told, the last first, each with the connection as
it was found. -/
inductive Leads (s : WireSession) : List (Wire × Task) → WireSession → Prop
  | refl : Leads s [] s
  | silent {log : List (Wire × Task)} {t u : WireSession} : Leads s log t → Happens t none u → Leads s log u
  | handled {log : List (Wire × Task)} {t u : WireSession} {task : Task} :
      Leads s log t → Happens t (some task) u → Leads s ((t.wires.wire 0, task) :: log) u

variable {s t u : WireSession} {log later : List (Wire × Task)}

theorem Leads.trans (h : Leads s log t) (h' : Leads t later u) : Leads s (later ++ log) u := by
  induction h' with
  | refl => exact h
  | silent _ hlast ih => exact ih.silent hlast
  | handled _ hlast ih => exact ih.handled hlast

end WireSession

end QuoteFeed
