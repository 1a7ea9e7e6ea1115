import QuoteFeed.Proofs.Traffic

/-!
A connection in outline: what it is, what it has shown, which of its operations are pending, and which have
ended and are to be handled. Callbacks that only ask for something do not show in it, so that what the
connection does is a function of its outline.
-/

namespace QuoteFeed

structure Outline where
  wire : Wire
  journal : List Entry := []
  pending : List Operation := []
  /-- Operations that have ended, with their errors. -/
  ended : List (Operation × Option Octets) := []
  serverNameFails : Bool := false
  verifyHostFails : Bool := false

namespace Outline

def alter (f : Wire → Wire) (k : Outline) : Outline := { k with wire := f k.wire }

def note (e : Entry) (k : Outline) : Outline := { k with journal := e :: k.journal }

def start (c : Call) (operation : Operation) (k : Outline) : Outline :=
  { k.note (.call c) with pending := k.pending ++ [operation] }

/-- Cancels the pending operations of a sort. -/
def abort (sort : Operation → Bool) (k : Outline) : Outline :=
  { k with
    pending := k.pending.filter fun o => !sort o
    ended := k.ended ++ (k.pending.filter sort).map fun o => (o, some Operation.aborted) }

def abortResolve (k : Outline) : Outline := k.abort fun o => o = .resolve

def abortStream (k : Outline) : Outline := k.abort fun o => o ≠ .resolve

section

variable (k : Outline) (f : Wire → Wire) (e : Entry) (c : Call) (operation : Operation)

@[simp] theorem wire_alter : (k.alter f).wire = f k.wire := rfl

@[simp] theorem wire_note : (k.note e).wire = k.wire := rfl

@[simp] theorem wire_start : (k.start c operation).wire = k.wire := rfl

@[simp] theorem journal_alter : (k.alter f).journal = k.journal := rfl

@[simp] theorem journal_start : (k.start c operation).journal = .call c :: k.journal := rfl

end

def startRead (k : Outline) : Outline := k.start .read .read

def startWrite (k : Outline) : Outline :=
  match k.wire.queue with
  | [] => k
  | frame :: _ => (k.alter fun x => { x with writing := true }).start (.write frame) .write

def startClose (k : Outline) : Outline := k.start .close .close

/-- Gives up what is pending before the connection is open. -/
def giveUp (k : Outline) : Outline :=
  ((k.note (.call .resolverCancel)).abortResolve.note (.call .cancel)).abortStream

/-- Drops what is not on its way, and closes the open connection at once or after that. -/
def shut (k : Outline) : Outline :=
  let cut := k.alter fun x => { x with queue := x.queue.take (if x.writing then 1 else 0) }
  if !k.wire.writing then cut.startClose else cut

def close (k : Outline) : Outline :=
  if !k.wire.closed && !k.wire.closing then
    let closing := k.alter fun x => { x with closing := true }
    if !k.wire.isOpen then closing.giveUp else closing.shut
  else k

def send (frame : Octets) (k : Outline) : Outline :=
  if !k.wire.closed && !k.wire.closing then
    let queued := k.alter fun x => { x with queue := x.queue ++ [frame] }
    if k.wire.isOpen && !k.wire.writing then queued.startWrite else queued
  else k

def reportClosed (k : Outline) : Outline :=
  if !k.wire.closed then
    let closed := k.alter fun x => { x with closed := true, isOpen := false, queue := [] }
    (closed.note (.call .socketClose)).abortStream.note (.status false)
  else k

def fail (what error : Octets) (k : Outline) : Outline :=
  if !k.wire.closed then
    if error ≠ Operation.aborted ∧ !k.wire.closing then (k.note (.error (what ++ octets ": " ++ error))).reportClosed
    else k.reportClosed
  else k

def startHandshake (k : Outline) : Outline :=
  ((k.note (.call .expiresNever)).note (.call .clientTimeouts)).note (.call .textFrames)
    |>.start (.handshake k.wire.endpoint.host k.wire.endpoint.target) .handshake

def startTls (k : Outline) : Outline :=
  let host := k.wire.endpoint.host.untilNul
  let named := k.note (.call (.serverName host))
  if k.serverNameFails then named.fail (octets "sni") Exchange.securityError
  else
    let verified := named.note (.call (.verifyHost host))
    if k.verifyHostFails then verified.fail (octets "host verification setup") Exchange.securityError
    else (verified.note (.call .verifyPeer)).start .tlsHandshake .tls

def afterResolve (k : Outline) : Outline := (k.note (.call (.expiresAfter 30000))).start .connect .connect

def afterConnect (k : Outline) : Outline := if k.wire.endpoint.tls then k.startTls else k.startHandshake

def afterHandshake (k : Outline) : Outline :=
  if k.wire.closing then k.startClose
  else
    let opened := ((k.alter fun x => { x with isOpen := true }).note (.status true)).startRead
    if !k.wire.queue.isEmpty && !k.wire.writing && !k.wire.closing then opened.startWrite else opened

def afterRead (k : Outline) : Outline :=
  let told := (k.alter fun x => { x with received := [] }).note (.message k.wire.received)
  if !k.wire.closed then told.startRead else told

def afterWrite (k : Outline) : Outline :=
  let next := k.alter fun x => { x with queue := x.queue.drop 1 }
  if k.wire.closing then next.startClose else if !next.wire.queue.isEmpty then next.startWrite else next

/-- An operation has ended. -/
def finish (operation : Operation) (error : Option Octets) (k : Outline) : Outline :=
  let ended := if operation = .write then k.alter fun x => { x with writing := false } else k
  match operation, error with
  | .close, _ => ended.reportClosed
  | .read, some e => if e = Operation.ended then ended.reportClosed else ended.fail (Exchange.what .read) e
  | operation, some e => ended.fail (Exchange.what operation) e
  | .resolve, none => ended.afterResolve
  | .connect, none => ended.afterConnect
  | .tls, none => ended.startHandshake
  | .handshake, none => ended.afterHandshake
  | .read, none => ended.afterRead
  | .write, none => ended.afterWrite

def perform : Task → Outline → Outline
  | .finish _ operation error => finish operation error
  | .send _ frame => send frame
  | .close _ => close

end Outline

/-- The operation whose end is to be handled, with its error. -/
def Task.ended? : Task → Option (Operation × Option Octets)
  | finish _ operation error => some (operation, error)
  | send .. | close _ => none

def Task.sent? : Task → Option Octets
  | send _ frame => some frame
  | finish .. | close _ => none

theorem List.filterMap_cons_eq_append {α β : Type} (f : α → Option β) (a : α) (as : List α) :
    (a :: as).filterMap f = (f a).toList ++ as.filterMap f := by
  rw [List.filterMap_cons]
  cases f a <;> rfl

theorem Task.filterMap_ended? {asked : List Task} (h : ∀ task ∈ asked, task.IsAsked) : asked.filterMap ended? = [] := by
  refine List.filterMap_eq_nil_iff.mpr fun task htask => ?_
  cases task with
  | finish => exact (h _ htask).elim
  | send => rfl
  | close => rfl

namespace Wires

variable {ws : Wires}

/-- The frames that are still to be taken. -/
def unsent (ws : Wires) : List Octets := ws.tasks.filterMap Task.sent?

/-- Everything is of one connection, which has one stream and keeps its callbacks. -/
structure Single (ws : Wires) : Prop where
  alone : ws.wires = [ws.wire 0]
  stream : (ws.wire 0).stream = some 1
  attached : (ws.wire 0).attached = some 0
  pending : ∀ p ∈ ws.pending, p.wire = 0 ∧ p.stream = 1
  tasks : ∀ task ∈ ws.tasks, task.wire = 0

theorem wires_change (h : ws.wires = [ws.wire 0]) (f : Wire → Wire) : (ws.change 0 f).wires = [f (ws.wire 0)] := by
  rw [change, h]
  rfl

theorem wire_change (h : ws.wires = [ws.wire 0]) (f : Wire → Wire) : (ws.change 0 f).wire 0 = f (ws.wire 0) := by
  rw [wire, wires_change h]
  rfl

theorem Single.change (h : ws.Single) {f : Wire → Wire} (hstream : ∀ x, (f x).stream = x.stream)
    (hattached : ∀ x, (f x).attached = x.attached) : (ws.change 0 f).Single where
  alone := by rw [wire_change h.alone, wires_change h.alone]
  stream := by rw [wire_change h.alone, hstream, h.stream]
  attached := by rw [wire_change h.alone, hattached, h.attached]
  pending := h.pending
  tasks := h.tasks

theorem Single.pop (h : ws.Single) {task : Task} {rest : List Task} (htasks : ws.tasks = task :: rest) :
    Single { ws with tasks := rest } where
  alone := h.alone
  stream := h.stream
  attached := h.attached
  pending := h.pending
  tasks other hother := h.tasks other (htasks ▸ List.mem_cons_of_mem _ hother)

theorem Single.begin (h : ws.Single) (operation : Operation) : (ws.begin 0 operation).Single where
  alone := h.alone
  stream := h.stream
  attached := h.attached
  pending p hp := by
    rcases List.mem_append.mp hp with hp | hp
    · exact h.pending p hp
    · rw [List.mem_singleton.mp hp, h.stream]
      exact ⟨rfl, rfl⟩
  tasks := h.tasks

theorem Single.abort (h : ws.Single) (sort : Pending → Bool) : (ws.abort sort).Single where
  alone := h.alone
  stream := h.stream
  attached := h.attached
  pending p hp := h.pending p (List.mem_filter.mp hp).1
  tasks task htask := by
    rcases List.mem_append.mp htask with htask | htask
    · exact h.tasks task htask
    · obtain ⟨p, hp, rfl⟩ := List.mem_map.mp htask
      exact (h.pending p (List.mem_filter.mp hp).1).1

theorem Single.ask (h : ws.Single) {asked : List Task} (hasked : ∀ task ∈ asked, task.IsAsked) :
    Single { ws with tasks := ws.tasks ++ asked } where
  alone := h.alone
  stream := h.stream
  attached := h.attached
  pending := h.pending
  tasks task htask := by
    rcases List.mem_append.mp htask with htask | htask
    · exact h.tasks task htask
    · cases task with
      | finish => exact (hasked _ htask).elim
      | send => exact hasked _ htask
      | close => exact hasked _ htask

theorem unsent_ask (asked : List Task) : ws.unsent <+: unsent { ws with tasks := ws.tasks ++ asked } := by
  rw [unsent, unsent, List.filterMap_append]
  exact List.prefix_append _ _

theorem unsent_abort (sort : Pending → Bool) : (ws.abort sort).unsent = ws.unsent := by
  simp [unsent, abort, List.filterMap_append, List.filterMap_map, Function.comp_def, Task.sent?]

theorem ended_abort (sort : Pending → Bool) : (ws.abort sort).tasks.filterMap Task.ended? =
    ws.tasks.filterMap Task.ended? ++ (ws.pending.filter sort).map fun p => (p.operation, some Operation.aborted) := by
  simp [abort, List.filterMap_append, List.filterMap_map, Function.comp_def, Task.ended?]

end Wires

namespace WireSession

def outline (s : WireSession) : Outline where
  wire := s.wires.wire 0
  journal := s.journal
  pending := s.wires.pending.map Pending.operation
  ended := s.wires.tasks.filterMap Task.ended?
  serverNameFails := s.wires.serverNameFails
  verifyHostFails := s.wires.verifyHostFails

/-- From the first session, the second one has come to this outline; frames may have been asked for. -/
structure Comes (s : WireSession) (k : Outline) (t : WireSession) : Prop where
  outline : t.outline = k
  single : t.wires.Single
  unsent : s.wires.unsent <+: t.wires.unsent
  reactions : t.reactions = s.reactions

namespace Comes

variable {s t : WireSession} {k : Outline} {notify : Nat → Report → Step WireSession Unit}

theorem wire_eq (h : Comes s k t) : t.wires.wire 0 = k.wire := congrArg Outline.wire h.outline

theorem gives_wire {Q : Wire → WireSession → Prop} : (Exchange.wire 0 : Step WireSession Wire).Gives t Q ↔
    Q (t.wires.wire 0) t := by
  simp only [Exchange.wire, Step.gives_bind, Step.gives_get, Step.gives_pure]
  rfl

theorem alter (h : Comes s k t) {f : Wire → Wire} (hstream : ∀ x, (f x).stream = x.stream)
    (hattached : ∀ x, (f x).attached = x.attached) :
    (Exchange.change 0 f).Gives t fun _ u => Comes s (k.alter f) u := by
  refine Step.gives_modify.mpr ⟨?_, h.single.change hstream hattached, h.unsent, h.reactions⟩
  rw [← h.outline]
  exact congrArg (fun x => { t.outline with wire := x }) (Wires.wire_change h.single.alone f)

theorem call (h : Comes s k t) (c : Call) : (Exchange.call c).Gives t fun _ u => Comes s (k.note (.call c)) u := by
  refine Step.gives_modify.mpr ⟨?_, h.single, h.unsent, h.reactions⟩
  rw [← h.outline]
  rfl

theorem start (h : Comes s k t) (c : Call) (operation : Operation) :
    (Exchange.begin 0 c operation).Gives t fun _ u => Comes s (k.start c operation) u := by
  refine (h.call c).bind fun _ u hu =>
    Step.gives_modify.mpr ⟨?_, hu.single.begin operation, hu.unsent, hu.reactions⟩
  have hpending : (u.wires.begin 0 operation).pending.map Pending.operation =
      (k.note (.call c)).pending ++ [operation] := by
    rw [← hu.outline]
    exact List.map_append
  have hbegun : (HasWires.withWires (u.wires.begin 0 operation) u).outline =
      { u.outline with pending := (k.note (.call c)).pending ++ [operation] } := by
    rw [← hpending]
    rfl
  refine hbegun.trans ?_
  rw [hu.outline]
  rfl

theorem abort (h : Comes s k t) {sort : Pending → Bool} {sorted : Operation → Bool}
    (hsort : ∀ p ∈ t.wires.pending, sort p = sorted p.operation) :
    (Exchange.changeAll (Wires.abort sort)).Gives t fun _ u => Comes s (k.abort sorted) u := by
  refine Step.gives_modify.mpr ⟨?_, h.single.abort sort, (Wires.unsent_abort sort).symm ▸ h.unsent, h.reactions⟩
  rw [← h.outline]
  have hkept : (t.wires.abort sort).pending.map Pending.operation = t.outline.pending.filter fun o => !sorted o := by
    rw [Wires.abort, List.filter_congr fun p hp => by rw [hsort p hp], WireSession.outline, List.filter_map]
    rfl
  have hgone : (t.wires.abort sort).tasks.filterMap Task.ended? =
      t.outline.ended ++ (t.outline.pending.filter sorted).map fun o => (o, some Operation.aborted) := by
    rw [Wires.ended_abort, List.filter_congr hsort, WireSession.outline, List.filter_map, List.map_map]
    rfl
  simp only [Outline.abort, ← hkept, ← hgone]
  rfl

theorem abortResolve (h : Comes s k t) :
    (Exchange.changeAll (Wires.abortResolve 0)).Gives t fun _ u => Comes s k.abortResolve u :=
  h.abort fun p hp => by simp [(h.single.pending p hp).1]

theorem abortStream (h : Comes s k t) :
    (Exchange.changeAll (Wires.abortStream 1)).Gives t fun _ u => Comes s k.abortStream u :=
  h.abort fun p hp => by simp [(h.single.pending p hp).2]

theorem onStream (h : Comes s k t) {f : Nat → Step WireSession Unit} {Q : Unit → WireSession → Prop}
    (hf : (f 1).Gives t Q) : (Exchange.onStream 0 f).Gives t Q := by
  simp only [Exchange.onStream, Step.gives_bind, gives_wire, h.single.stream]
  exact hf

theorem startRead (h : Comes s k t) : (Exchange.startRead 0).Gives t fun _ u => Comes s k.startRead u :=
  h.onStream (h.start _ _)

theorem startWrite (h : Comes s k t) : (Exchange.startWrite 0).Gives t fun _ u => Comes s k.startWrite u := by
  simp only [Exchange.startWrite, Step.gives_bind, gives_wire, h.wire_eq]
  unfold Outline.startWrite
  cases k.wire.queue with
  | nil => exact Step.gives_pure.mpr h
  | cons frame rest =>
    exact .bind (h.alter (fun _ => rfl) fun _ => rfl) fun _ _ h => h.onStream (h.start _ _)

theorem startClose (h : Comes s k t) : (Exchange.startClose 0).Gives t fun _ u => Comes s k.startClose u :=
  h.onStream (h.start _ _)

theorem ite (p : Prop) [Decidable p] {x y : Step WireSession Unit} {j : Outline}
    (hx : x.Gives t fun _ u => Comes s j u) (hy : y.Gives t fun _ u => Comes s k u) :
    (if p then x else y).Gives t fun _ u => Comes s (if p then j else k) u := by
  by_cases hp : p
  · simpa only [if_pos hp] using hx
  · simpa only [if_neg hp] using hy

theorem pure (h : Comes s k t) : (pure () : Step WireSession Unit).Gives t fun _ u => Comes s k u :=
  Step.gives_pure.mpr h

theorem close (h : Comes s k t) : (Exchange.close 0).Gives t fun _ u => Comes s k.close u := by
  simp only [Exchange.close, Step.gives_bind, gives_wire, h.wire_eq]
  refine ite _ (.bind (h.alter (fun _ => rfl) fun _ => rfl) fun _ _ h => ite _ ?_ ?_) h.pure
  · refine (h.call .resolverCancel).bind fun _ _ h => h.abortResolve.bind fun _ _ h => ?_
    exact h.onStream ((h.call .cancel).bind fun _ _ h => h.abortStream)
  · exact .bind (h.alter (fun _ => rfl) fun _ => rfl) fun _ _ h => ite _ h.startClose h.pure

theorem send (h : Comes s k t) (frame : Octets) :
    (Exchange.send 0 frame).Gives t fun _ u => Comes s (k.send frame) u := by
  simp only [Exchange.send, Step.gives_bind, gives_wire, h.wire_eq]
  exact ite _ (.bind (h.alter (fun _ => rfl) fun _ => rfl) fun _ _ h => ite _ h.startWrite h.pure) h.pure

theorem report (h : Comes s k t) (hnotify : Courteous s.reactions notify) (r : Report) :
    (Exchange.report notify 0 r).Gives t fun _ u => Comes s (k.note (entry r)) u := by
  simp only [Exchange.report, Step.gives_bind, gives_wire, h.single.attached]
  refine (hnotify 0 r t h.reactions).mono fun _ u htold => ?_
  obtain ⟨hjournal, ⟨asked, hasked, hwires⟩, hreactions⟩ := htold
  refine ⟨?_, ?_, ?_, hreactions.trans h.reactions⟩
  · have hended : u.wires.tasks.filterMap Task.ended? = t.wires.tasks.filterMap Task.ended? := by
      rw [hwires, List.filterMap_append, Task.filterMap_ended? hasked, List.append_nil]
    rw [← h.outline, WireSession.outline, hended, hjournal, hwires]
    rfl
  · rw [hwires]
    exact h.single.ask hasked
  · rw [hwires]
    exact h.unsent.trans (Wires.unsent_ask asked)

theorem reportClosed (h : Comes s k t) (hnotify : Courteous s.reactions notify) :
    (Exchange.reportClosed notify 0).Gives t fun _ u => Comes s k.reportClosed u := by
  simp only [Exchange.reportClosed, Step.gives_bind, gives_wire, h.wire_eq]
  refine ite _ (.bind (h.alter (fun _ => rfl) fun _ => rfl) fun _ _ h => ?_) h.pure
  refine .bind (h.onStream ((h.call _).bind fun _ _ h => h.abortStream)) fun _ _ h => ?_
  exact h.report hnotify .closed

theorem fail (h : Comes s k t) (hnotify : Courteous s.reactions notify) (what error : Octets) :
    (Exchange.fail notify 0 what error).Gives t fun _ u => Comes s (k.fail what error) u := by
  simp only [Exchange.fail, Step.gives_bind, gives_wire, h.wire_eq]
  refine ite _ (ite _ ?_ (h.reportClosed hnotify)) h.pure
  exact (h.report hnotify (.error _)).bind fun _ _ h => h.reportClosed hnotify

theorem startHandshake (h : Comes s k t) :
    (Exchange.startHandshake 0).Gives t fun _ u => Comes s k.startHandshake u := by
  simp only [Exchange.startHandshake, Step.gives_bind, gives_wire, h.wire_eq]
  refine h.onStream ((h.call _).bind fun _ _ h => (h.call _).bind fun _ _ h => (h.call _).bind fun _ _ h => ?_)
  exact h.start _ _

theorem startTls (h : Comes s k t) (hnotify : Courteous s.reactions notify) :
    (Exchange.startTls notify 0).Gives t fun _ u => Comes s k.startTls u := by
  simp only [Exchange.startTls, Step.gives_bind, gives_wire, h.wire_eq]
  refine (h.call _).mono fun _ u h => ?_
  have hname : (HasWires.wires u).serverNameFails = k.serverNameFails := congrArg Outline.serverNameFails h.outline
  simp only [Step.gives_get, hname]
  refine ite _ (h.fail hnotify _ _) ((h.call _).bind fun _ v h => ?_)
  have hhost : (HasWires.wires v).verifyHostFails = k.verifyHostFails := congrArg Outline.verifyHostFails h.outline
  simp only [Step.gives_bind, Step.gives_get, hhost]
  exact ite _ (h.fail hnotify _ _) ((h.call _).bind fun _ _ h => h.start _ _)

theorem afterResolve (h : Comes s k t) : (Exchange.afterResolve 0).Gives t fun _ u => Comes s k.afterResolve u :=
  h.onStream ((h.call _).bind fun _ _ h => h.start _ _)

theorem afterConnect (h : Comes s k t) (hnotify : Courteous s.reactions notify) :
    (Exchange.afterConnect notify 0).Gives t fun _ u => Comes s k.afterConnect u := by
  simp only [Exchange.afterConnect, Step.gives_bind, gives_wire, h.wire_eq]
  exact ite _ (h.startTls hnotify) h.startHandshake

theorem afterHandshake (h : Comes s k t) (hnotify : Courteous s.reactions notify) :
    (Exchange.afterHandshake notify 0).Gives t fun _ u => Comes s k.afterHandshake u := by
  simp only [Exchange.afterHandshake, Step.gives_bind, gives_wire, h.wire_eq]
  refine ite _ h.startClose (.bind (h.alter (fun _ => rfl) fun _ => rfl) fun _ _ h => ?_)
  refine (h.report hnotify .opened).bind fun _ _ h => h.startRead.bind fun _ _ h => ?_
  simp only [Step.gives_bind, gives_wire, h.wire_eq]
  exact ite _ h.startWrite h.pure

theorem afterRead (h : Comes s k t) (hnotify : Courteous s.reactions notify) :
    (Exchange.afterRead notify 0).Gives t fun _ u => Comes s k.afterRead u := by
  simp only [Exchange.afterRead, Step.gives_bind, gives_wire, h.wire_eq]
  refine .mono (h.alter (fun _ => rfl) fun _ => rfl) fun _ _ h => (h.report hnotify (.frame _)).mono fun _ _ h => ?_
  rw [h.wire_eq]
  exact ite _ h.startRead h.pure

theorem afterWrite (h : Comes s k t) : (Exchange.afterWrite 0).Gives t fun _ u => Comes s k.afterWrite u := by
  refine .bind (h.alter (fun _ => rfl) fun _ => rfl) fun _ _ h => ?_
  simp only [Step.gives_bind, gives_wire, h.wire_eq]
  exact ite _ h.startClose (ite _ h.startWrite h.pure)

theorem finish (h : Comes s k t) (hnotify : Courteous s.reactions notify) (operation : Operation)
    (error : Option Octets) :
    (Exchange.finish notify 0 operation error).Gives t fun _ u => Comes s (k.finish operation error) u := by
  cases error with
  | some e =>
    cases operation with
    | close => exact h.reportClosed hnotify
    | read => exact ite _ (h.reportClosed hnotify) (h.fail hnotify _ _)
    | write => exact .bind (h.alter (fun _ => rfl) fun _ => rfl) fun _ _ h => h.fail hnotify _ _
    | _ => exact h.fail hnotify _ _
  | none =>
    cases operation with
    | close => exact h.reportClosed hnotify
    | resolve => exact h.afterResolve
    | connect => exact h.afterConnect hnotify
    | tls => exact h.startHandshake
    | handshake => exact h.afterHandshake hnotify
    | read => exact h.afterRead hnotify
    | write => exact .bind (h.alter (fun _ => rfl) fun _ => rfl) fun _ _ h => h.afterWrite

theorem perform (h : Comes s k t) (hnotify : Courteous s.reactions notify) {task : Task} (htask : task.wire = 0) :
    (Exchange.perform notify task).Gives t fun _ u => Comes s (k.perform task) u := by
  cases task with
  | finish w operation error =>
    cases htask
    exact h.finish hnotify operation error
  | send w frame =>
    cases htask
    exact h.send frame
  | close w =>
    cases htask
    exact h.close

end Comes

end WireSession

namespace Outline

/-- An operation is no longer pending. Data may have come with its end. -/
def lose (operation : Operation) (received : Octets) (k : Outline) : Outline :=
  { k with wire := { k.wire with received }, pending := k.pending.erase operation }

/-- An operation is no longer pending. Data that has been read is added to what has been received. -/
def gain (operation : Operation) (data : Octets) (k : Outline) : Outline :=
  k.lose operation (if operation = .read then k.wire.received ++ data else k.wire.received)

/-- An operation is taken whose end is to be handled: one that is pending, or the first of those that
have ended. -/
inductive Yields (k : Outline) (operation : Operation) (error : Option Octets) : Outline → Prop
  | pending (received : Octets) : operation ∈ k.pending → Yields k operation error (k.lose operation received)
  | ended {rest : List (Operation × Option Octets)} : k.ended = (operation, error) :: rest →
      Yields k operation error { k with ended := rest }

/-- What happens to a connection, in outline. -/
inductive Moves (k : Outline) : Option Task → Outline → Prop
  | still : Moves k none k
  | ended {operation : Operation} (error : Option Octets) (received : Octets) : operation ∈ k.pending →
      Moves k none { k.lose operation received with ended := k.ended ++ [(operation, error)] }
  | asked {task : Task} : task.IsAsked → Moves k (some task) (k.perform task)
  | finished {operation : Operation} {error : Option Octets} {j : Outline} :
      k.Yields operation error j → Moves k (some (.finish 0 operation error)) (j.finish operation error)

end Outline

theorem Wires.takePending_eq_some {operation : Operation} {pending rest : List Pending} {p : Pending}
    (h : takePending operation pending = some (p, rest)) :
    p ∈ pending ∧ p.operation = operation ∧ rest.Sublist pending ∧
      rest.map Pending.operation = (pending.map Pending.operation).erase operation := by
  induction pending generalizing rest with
  | nil => cases h
  | cons q others ih =>
    unfold takePending at h
    split at h
    next hq =>
      cases h
      refine ⟨List.mem_cons_self, hq, List.sublist_cons_self _ _, ?_⟩
      rw [List.map_cons, hq, List.erase_cons_head]
    next hq =>
      obtain ⟨⟨r, later⟩, htaken, he⟩ := Option.map_eq_some_iff.mp h
      cases he
      obtain ⟨hmem, hp, hsub, hmap⟩ := ih htaken
      refine ⟨List.mem_cons_of_mem _ hmem, hp, hsub.cons_cons _, ?_⟩
      rw [List.map_cons, List.map_cons, List.erase_cons_tail (by simpa using hq), hmap]

theorem Wires.takePending_eq_none {operation : Operation} {pending : List Pending}
    (h : takePending operation pending = none) : operation ∉ pending.map Pending.operation := by
  induction pending with
  | nil => exact List.not_mem_nil
  | cons q others ih =>
    unfold takePending at h
    split at h
    next => cases h
    next hq =>
      intro hmem
      rcases List.mem_cons.mp hmem with he | hmem
      · exact hq he.symm
      · exact ih (Option.map_eq_none_iff.mp h) hmem

namespace WireSession

variable {s t : WireSession} {notify : Nat → Report → Step WireSession Unit} {operation : Operation}
  {error : Option Octets} {data : Octets}

theorem comes_self (h : s.wires.Single) : Comes s s.outline s := ⟨rfl, h, List.prefix_rfl, rfl⟩

/-- A pending operation ends: it is the connection's, and is pending no longer. -/
theorem comes_complete (h : s.wires.Single) {w : Nat} {ws : Wires}
    (hc : s.wires.complete operation data = some (w, ws)) :
    w = 0 ∧ operation ∈ s.outline.pending ∧ Comes s (s.outline.gain operation data) { s with wires := ws } := by
  obtain ⟨⟨p, pending⟩, htaken, hws⟩ := Option.bind_eq_some_iff.mp hc
  obtain ⟨hmem, hp, hsub, hmap⟩ := Wires.takePending_eq_some htaken
  have hsingle : Wires.Single { s.wires with pending } :=
    ⟨h.alone, h.stream, h.attached, fun q hq => h.pending q (hsub.mem hq), h.tasks⟩
  have hlost : operation ∈ s.outline.pending := hp ▸ List.mem_map_of_mem hmem
  have hw : p.wire = 0 := (h.pending p hmem).1
  have hoperations : ∀ x : Wire, ({ s.outline with wire := x, pending := pending.map Pending.operation } : Outline) =
      { s.outline with wire := x, pending := s.outline.pending.erase operation } :=
    fun x => congrArg (fun ops => ({ s.outline with wire := x, pending := ops } : Outline)) hmap
  simp only at hws
  split at hws
  next hread =>
    cases hws
    refine ⟨hw, hlost, ?_, ?_, List.prefix_rfl, rfl⟩
    · rw [hw, Outline.gain, if_pos hread]
      refine Eq.trans ?_ (hoperations _)
      exact congrArg (fun x => ({ s.outline with wire := x, pending := pending.map Pending.operation } : Outline))
        (Wires.wire_change hsingle.alone _)
    · rw [hw]
      exact hsingle.change (fun _ => rfl) fun _ => rfl
  next hread =>
    cases hws
    refine ⟨hw, hlost, ?_, hsingle, List.prefix_rfl, rfl⟩
    rw [Outline.gain, if_neg hread]
    exact hoperations _

theorem gives_complete (h : s.wires.Single) {late : Bool} {Q : Bool → WireSession → Prop}
    (hnone : operation ∉ s.outline.pending → Q false s)
    (hsome : ∀ t, operation ∈ s.outline.pending → Comes s (s.outline.gain operation data) t →
      (if late then Exchange.changeAll (Wires.post (.finish 0 operation error))
        else Exchange.finish notify 0 operation error).Gives t fun _ u => Q true u) :
    (Exchange.complete notify operation error data late).Gives s Q := by
  simp only [Exchange.complete, Step.gives_bind, Step.gives_get]
  cases hc : (HasWires.wires s).complete operation data with
  | none =>
    refine Step.gives_pure.mpr (hnone fun hmem => ?_)
    cases ht : Wires.takePending operation s.wires.pending with
    | none => exact Wires.takePending_eq_none ht hmem
    | some taken =>
      rw [Wires.complete, show (HasWires.wires s).pending = s.wires.pending from rfl, ht] at hc
      simp only [Option.bind_eq_bind, Option.bind_some] at hc
      split at hc <;> cases hc
  | some found =>
    obtain ⟨w, ws⟩ := found
    obtain ⟨rfl, hlost, hcomes⟩ := comes_complete h hc
    have hdone := hsome _ hlost hcomes
    refine Step.gives_bind.mpr (Step.gives_modify.mpr ?_)
    cases late with
    | true => exact .bind hdone fun _ _ hu => Step.gives_pure.mpr hu
    | false => exact .bind hdone fun _ _ hu => Step.gives_pure.mpr hu

theorem Comes.post_finish {k : Outline} (h : Comes s k t) :
    Comes s { k with ended := k.ended ++ [(operation, error)] }
      { t with wires := t.wires.post (.finish 0 operation error) } where
  outline := by
    rw [← h.outline]
    exact congrArg (fun ended => ({ t.outline with ended } : Outline)) List.filterMap_append
  single := by
    refine ⟨h.single.alone, h.single.stream, h.single.attached, h.single.pending, fun task htask => ?_⟩
    rcases List.mem_append.mp htask with htask | htask
    · exact h.single.tasks task htask
    · rw [List.mem_singleton.mp htask]
      rfl
  unsent := by
    refine h.unsent.trans ?_
    rw [Wires.unsent, Wires.unsent, Wires.post, List.filterMap_append]
    exact List.prefix_append _ _
  reactions := h.reactions

/-- To ask for something does not show in outline. -/
theorem outline_asked {task : Task} (h : task.IsAsked) :
    outline { s with wires := s.wires.post task } = s.outline := by
  have hasked : ∀ other ∈ [task], other.IsAsked := fun other hother => List.mem_singleton.mp hother ▸ h
  rw [outline, Wires.post, List.filterMap_append, Task.filterMap_ended? hasked, List.append_nil]
  rfl

/-- An operation has ended whose end is handled later. -/
theorem comes_ended (hs : s.wires.Single)
    (h : (Exchange.complete notify operation error data true).outcome s = some (.ok true, t)) :
    operation ∈ s.outline.pending ∧ Comes s
      { s.outline.gain operation data with ended := (s.outline.gain operation data).ended ++ [(operation, error)] } t := by
  have hgives : (Exchange.complete notify operation error data true).Gives s fun found u => found = true →
      operation ∈ s.outline.pending ∧ Comes s { s.outline.gain operation data with
        ended := (s.outline.gain operation data).ended ++ [(operation, error)] } u := by
    refine gives_complete hs (fun _ h => absurd h Bool.noConfusion) fun u hlost hu => ?_
    exact Step.gives_modify.mpr fun _ => ⟨hlost, hu.post_finish⟩
  obtain ⟨found, hfound, hcomes⟩ := hgives.value h
  exact hcomes (Except.ok.inj hfound).symm

/-- An operation has ended whose end has been handled at once. -/
theorem comes_finished (hs : s.wires.Single) (hnotify : Courteous s.reactions notify)
    (h : (Exchange.complete notify operation error data false).outcome s = some (.ok true, t)) :
    operation ∈ s.outline.pending ∧ Comes s ((s.outline.gain operation data).finish operation error) t := by
  have hgives : (Exchange.complete notify operation error data false).Gives s fun found u => found = true →
      operation ∈ s.outline.pending ∧ Comes s ((s.outline.gain operation data).finish operation error) u := by
    refine gives_complete hs (fun _ h => absurd h Bool.noConfusion) fun u hlost hu => ?_
    exact (hu.finish hnotify operation error).mono fun _ _ hv _ => ⟨hlost, hv⟩
  obtain ⟨found, hfound, hcomes⟩ := hgives.value h
  exact hcomes (Except.ok.inj hfound).symm

/-- The session without the first of what is to be done. -/
def popped (rest : List Task) (s : WireSession) : WireSession := { s with wires := { s.wires with tasks := rest } }

theorem outline_popped {rest : List Task} (h : s.outline.ended = (s.popped rest).outline.ended) :
    (s.popped rest).outline = s.outline :=
  congrArg (fun ended => ({ s.outline with ended } : Outline)) h.symm

/-- What is to be done first is the connection's own, and is done in outline. -/
theorem comes_polled (hs : s.wires.Single) (hnotify : Courteous s.reactions notify) {task : Task} {rest : List Task}
    (htasks : s.wires.tasks = task :: rest)
    (h : (Exchange.perform notify task).outcome (s.popped rest) = some (.ok (), t)) :
    task.wire = 0 ∧ s.outline.ended = task.ended?.toList ++ (s.popped rest).outline.ended ∧
      Comes (s.popped rest) ((s.popped rest).outline.perform task) t := by
  have htask : task.wire = 0 := hs.tasks task (htasks ▸ List.mem_cons_self)
  obtain ⟨-, -, hcomes⟩ := ((comes_self (s := s.popped rest) (hs.pop htasks)).perform hnotify htask).value h
  refine ⟨htask, ?_, hcomes⟩
  rw [outline, htasks]
  exact List.filterMap_cons_eq_append _ _ _

/-- What happens to the connection happens in outline, and frames that have been asked for wait until they
are taken, in order. What has been laid down stays. -/
theorem Happens.moves {label : Option Task} (hs : s.wires.Single) (h : Happens s label t) :
    t.wires.Single ∧ s.outline.Moves label t.outline ∧
      s.wires.unsent <+: (label.bind Task.sent?).toList ++ t.wires.unsent ∧ t.reactions = s.reactions := by
  cases h with
  | asked task htask =>
    have hasked : ∀ other ∈ [task], other.IsAsked := fun other hother => List.mem_singleton.mp hother ▸ htask
    exact ⟨hs.ask hasked, outline_asked htask ▸ .still, Wires.unsent_ask _, rfl⟩
  | @ended notify operation error data t h =>
    obtain ⟨hlost, hcomes⟩ := comes_ended hs h
    exact ⟨hcomes.single, hcomes.outline ▸ .ended error _ hlost, hcomes.unsent, hcomes.reactions⟩
  | @finished notify operation error data t hnotify h =>
    obtain ⟨hlost, hcomes⟩ := comes_finished hs hnotify h
    exact ⟨hcomes.single, hcomes.outline ▸ .finished (.pending _ hlost), hcomes.unsent, hcomes.reactions⟩
  | @polled notify task rest t hnotify htasks h =>
    obtain ⟨htask, hended, hcomes⟩ := comes_polled hs hnotify htasks h
    have hunsent : s.wires.unsent = task.sent?.toList ++ (s.popped rest).wires.unsent := by
      rw [Wires.unsent, htasks]
      exact List.filterMap_cons_eq_append _ _ _
    refine ⟨hcomes.single, ?_, hunsent ▸ (List.prefix_append_right_inj _).mpr hcomes.unsent, hcomes.reactions⟩
    rw [hcomes.outline]
    cases task with
    | finish w operation error =>
      cases htask
      exact .finished (.ended hended)
    | send w frame =>
      exact outline_popped hended ▸ .asked htask
    | close w =>
      exact outline_popped hended ▸ .asked htask

/-- Whatever ends or has ended can be handled, as long as the callbacks return. -/
theorem gives_handled (hs : s.wires.Single) (hnotify : Courteous s.reactions notify) :
    (∀ operation ∈ s.wires.pending.map Pending.operation, ∀ error data late,
      (Exchange.complete notify operation error data late).Gives s fun found _ => found = true) ∧
    ∀ task rest, s.wires.tasks = task :: rest →
      (Exchange.perform notify task).Gives { s with wires := { s.wires with tasks := rest } } fun _ _ => True := by
  constructor
  · intro operation hmem error data late
    refine gives_complete hs (fun hno => absurd hmem hno) fun t hlost ht => ?_
    cases late with
    | true => exact Step.gives_modify.mpr rfl
    | false => exact (ht.finish hnotify operation error).mono fun _ _ _ => rfl
  · intro task rest htasks
    have htask : task.wire = 0 := hs.tasks task (htasks ▸ List.mem_cons_self)
    exact ((comes_self (s := s.popped rest) (hs.pop htasks)).perform hnotify htask).mono fun _ _ _ => trivial

/-- The operations that are pending, and those whose ends are still to be handled. -/
def outstanding (s : WireSession) : List Operation :=
  s.wires.pending.map Pending.operation ++ (s.wires.tasks.filterMap Task.ended?).map Prod.fst

end WireSession

end QuoteFeed
