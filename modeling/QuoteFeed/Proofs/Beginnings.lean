import QuoteFeed.Proofs.Phases

/-!
The beginning of a connection. Before it is told to connect it can be asked for something already; but nothing of
this remains, except for what is still to be done then and for calls to a resolver that is not searching.
-/

namespace QuoteFeed

namespace WireSession

/-- A connection that nothing has happened to. -/
def blank (serverNameFails verifyHostFails : Bool) (reactions : List (Occasion × List WireOp)) : WireSession :=
  { wires := { wires := [{ attached := some 0 }], serverNameFails, verifyHostFails }, reactions }

/-- The connection is told to connect. -/
def connect (endpoint : Endpoint) (s : WireSession) : WireSession :=
  let (_, entries, wires) := s.wires.connect 0 endpoint
  { s with wires, journal := entries.reverse ++ s.journal }

/-- A connection has just been told to connect, whatever it was asked for before. -/
def Begins (serverNameFails verifyHostFails : Bool) (reactions : List (Occasion × List WireOp)) (endpoint : Endpoint)
    (s : WireSession) : Prop :=
  ∃ log t, Leads (blank serverNameFails verifyHostFails reactions) log t ∧ s = t.connect endpoint

/-- From the first session, the second one has come without being told to connect. -/
structure Waits (s t : WireSession) : Prop where
  wire : ∃ x : Wire, t.wires.wires = [x] ∧ x.stream = none ∧ x.attached = some 0 ∧ x.isOpen = false
  pending : t.wires.pending = []
  streams : t.wires.streams = 0
  tasks : ∀ task ∈ t.wires.tasks, task.IsAsked
  journal : ∀ e ∈ t.journal, e = .call .resolverCancel
  serverName : t.wires.serverNameFails = s.wires.serverNameFails
  verifyHost : t.wires.verifyHostFails = s.wires.verifyHostFails
  reactions : t.reactions = s.reactions

section

variable {s t u : WireSession} {log : List (Wire × Task)} {serverNameFails verifyHostFails : Bool}
  {reactions : List (Occasion × List WireOp)} {endpoint : Endpoint} {notify : Nat → Report → Step WireSession Unit}

theorem Waits.wire_zero (h : Waits s t) : (t.wires.wire 0).stream = none ∧ (t.wires.wire 0).isOpen = false := by
  obtain ⟨x, hx, hnone, -, hshut⟩ := h.wire
  rw [Wires.wire, hx]
  exact ⟨hnone, hshut⟩

theorem Waits.change (h : Waits s t) {f : Wire → Wire} (hstream : ∀ x, (f x).stream = x.stream)
    (hattached : ∀ x, (f x).attached = x.attached) (hopen : ∀ x, (f x).isOpen = x.isOpen) :
    (Exchange.change 0 f).Gives t fun _ u => Waits s u := by
  obtain ⟨x, hx, hnone, hzero, hshut⟩ := h.wire
  refine Step.gives_modify.mpr { h with wire := ⟨f x, ?_, ?_, ?_, ?_⟩ }
  · exact congrArg (List.modify · 0 f) hx
  · exact (hstream x).trans hnone
  · exact (hattached x).trans hzero
  · exact (hopen x).trans hshut

theorem Waits.resolverCancel (h : Waits s t) : (Exchange.call .resolverCancel).Gives t fun _ u => Waits s u :=
  Step.gives_modify.mpr { h with journal := fun e he => (List.mem_cons.mp he).elim id (h.journal e) }

theorem Waits.abortResolve (h : Waits s t) :
    (Exchange.changeAll (Wires.abortResolve 0)).Gives t fun _ u => Waits s u := by
  have habort : (t.wires.abortResolve 0).pending = [] ∧ (t.wires.abortResolve 0).tasks = t.wires.tasks := by
    rw [Wires.abortResolve, Wires.abort, h.pending]
    exact ⟨rfl, List.append_nil _⟩
  exact Step.gives_modify.mpr { h with pending := habort.1, tasks := fun task ht => h.tasks task (habort.2 ▸ ht) }

theorem Waits.onStream (h : Waits s t) (f : Nat → Step WireSession Unit) :
    (Exchange.onStream 0 f).Gives t fun _ u => Waits s u := by
  simp only [Exchange.onStream, Step.gives_bind, Comes.gives_wire, h.wire_zero.1, Step.gives_pure]
  exact h

theorem Waits.perform (h : Waits s t) {task : Task} (htask : task.IsAsked) :
    (Exchange.perform notify task).Gives t fun _ u => Waits s u := by
  cases task with
  | finish => exact htask.elim
  | send w frame =>
    cases htask
    simp only [Exchange.perform, Exchange.send, Step.gives_bind, Comes.gives_wire, h.wire_zero.2]
    split
    next => exact .bind (h.change (fun _ => rfl) (fun _ => rfl) fun _ => rfl) fun _ _ h => Step.gives_pure.mpr h
    next => exact Step.gives_pure.mpr h
  | close w =>
    cases htask
    simp only [Exchange.perform, Exchange.close, Step.gives_bind, Comes.gives_wire, h.wire_zero.2]
    split
    next =>
      refine .bind (h.change (fun _ => rfl) (fun _ => rfl) fun _ => rfl) fun _ _ h => ?_
      exact h.resolverCancel.bind fun _ _ h => h.abortResolve.bind fun _ _ h => h.onStream _
    next => exact Step.gives_pure.mpr h

/-- Nothing is pending, so that nothing ends. -/
theorem Waits.complete (h : Waits s t) {operation : Operation} {error : Option Octets} {data : Octets} {late : Bool} :
    (Exchange.complete notify operation error data late).Gives t fun found _ => found = false := by
  have hnone : (HasWires.wires t).complete operation data = none := by
    rw [Wires.complete, show (HasWires.wires t).pending = [] from h.pending]
    rfl
  simp only [Exchange.complete, Step.gives_bind, Step.gives_get, hnone, Step.gives_pure]

theorem Waits.happens (h : Waits s t) {label : Option Task} (hu : Happens t label u) : Waits s u := by
  cases hu with
  | asked task htask =>
    refine { h with tasks := fun other hother => ?_ }
    rcases List.mem_append.mp hother with hother | hother
    · exact h.tasks other hother
    · exact List.mem_singleton.mp hother ▸ htask
  | ended hended =>
    obtain ⟨found, he, hfound⟩ := h.complete.value hended
    exact Bool.noConfusion ((Except.ok.inj he).trans hfound)
  | finished _ hfinished =>
    obtain ⟨found, he, hfound⟩ := h.complete.value hfinished
    exact Bool.noConfusion ((Except.ok.inj he).trans hfound)
  | @polled notify task rest u _ htasks hpolled =>
    have hpopped : Waits s { t with wires := { t.wires with tasks := rest } } :=
      { h with tasks := fun other hother => h.tasks other (htasks ▸ List.mem_cons_of_mem _ hother) }
    obtain ⟨-, -, hdone⟩ := (hpopped.perform (h.tasks task (htasks ▸ List.mem_cons_self))).value hpolled
    exact hdone

theorem Leads.waits (h : Leads (blank serverNameFails verifyHostFails reactions) log t) :
    Waits (blank serverNameFails verifyHostFails reactions) t := by
  induction h with
  | refl =>
    exact ⟨⟨_, rfl, rfl, rfl, rfl⟩, rfl, rfl, fun _ h => absurd h List.not_mem_nil,
      fun _ h => absurd h List.not_mem_nil, rfl, rfl, rfl⟩
  | silent _ hlast ih => exact ih.happens hlast
  | handled _ hlast ih => exact ih.happens hlast

theorem Waits.connect_wires (h : Waits s t) : (t.connect endpoint).wires =
    { (dialed s.wires.serverNameFails s.wires.verifyHostFails [] endpoint).wires with tasks := t.wires.tasks } := by
  obtain ⟨⟨ws, pending, tasks, streams, serverNameFails, verifyHostFails⟩, journal, reactions⟩ := t
  obtain ⟨⟨x, hx, hnone, hzero, -⟩, hpending, hstreams, -, -, hserverName, hverifyHost, -⟩ := h
  obtain ⟨e, stream, received, queue, isOpen, closing, writing, closed, attached⟩ := x
  dsimp only at hx hnone hzero hpending hstreams hserverName hverifyHost
  subst hx hnone hzero hpending hstreams hserverName hverifyHost
  rfl

/-- However a connection has been asked before, it begins to dial, and what was asked for is still to be done. -/
theorem Begins.outline_eq (h : Begins serverNameFails verifyHostFails reactions endpoint s) :
    s.wires.Single ∧ s.reactions = reactions ∧ ∃ earlier : List Entry, (∀ e ∈ earlier, e = .call .resolverCancel) ∧
      s.outline = { Outline.dialed serverNameFails verifyHostFails endpoint with
        journal := (Outline.dialed serverNameFails verifyHostFails endpoint).journal ++ earlier } := by
  obtain ⟨log, t, hlog, rfl⟩ := h
  have hwaits : Waits (blank serverNameFails verifyHostFails reactions) t := hlog.waits
  have hwires : (t.connect endpoint).wires =
      { (dialed serverNameFails verifyHostFails [] endpoint).wires with tasks := t.wires.tasks } := hwaits.connect_wires
  refine ⟨?_, hwaits.reactions, t.journal, hwaits.journal, ?_⟩
  · rw [hwires]
    refine ⟨rfl, rfl, rfl, fun p hp => ?_, fun task htask => ?_⟩
    · rw [List.mem_singleton.mp hp]
      exact ⟨rfl, rfl⟩
    · have hasked := hwaits.tasks task htask
      cases task with
      | finish => exact hasked.elim
      | send => exact hasked
      | close => exact hasked
  · rw [outline, hwires]
    simp only [Task.filterMap_ended? hwaits.tasks]
    rfl

/-- One way to begin is to ask for nothing before. -/
theorem begins_dialed : Begins serverNameFails verifyHostFails reactions endpoint
    (dialed serverNameFails verifyHostFails reactions endpoint) :=
  ⟨[], _, .refl, rfl⟩

end

end WireSession

end QuoteFeed
