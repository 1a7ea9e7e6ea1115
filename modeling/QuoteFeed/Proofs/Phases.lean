import QuoteFeed.Proofs.Sessions

/-!
The phases of a connection: while it dials, exactly one operation is outstanding; while it is open, it reads,
and it writes as long as it has frames; and once it is closed, it dials no more.
-/

namespace QuoteFeed

/-- Operations that lead to an open connection. -/
def Operation.dials : Operation → Bool
  | resolve | connect | tls | handshake => true
  | read | write | close => false

/-- The phases, each with the operations that are outstanding in it. -/
inductive WirePhase (x : Wire) (operations : List Operation) : Prop
  | dialing (operation : Operation) : x.closed = false → x.isOpen = false → x.writing = false →
      operation.dials = true → operations = [operation] → WirePhase x operations
  /-- The connection has become ready when it was to be closed already. -/
  | parting : x.closed = false → x.isOpen = false → x.writing = false → x.closing = true →
      operations = [.close] → WirePhase x operations
  | flowing : x.closed = false → x.isOpen = true → x.writing = !x.queue.isEmpty →
      (x.closing = true → x.queue.length ≤ 1) →
      operations.Perm (.read :: if x.writing then [.write] else if x.closing then [.close] else []) →
      WirePhase x operations
  | gone : x.closed = true → x.isOpen = false → x.queue = [] →
      operations.count .write = (if x.writing then 1 else 0) → (∀ o ∈ operations, o.dials = false) →
      WirePhase x operations

namespace WirePhase

variable {x y : Wire} {operations others : List Operation}

theorem perm (h : WirePhase x operations) (hp : operations.Perm others) : WirePhase x others := by
  cases h with
  | dialing o hclosed hopen hwriting hdials ho =>
    exact .dialing o hclosed hopen hwriting hdials (List.perm_singleton.mp (ho ▸ hp.symm))
  | parting hclosed hopen hwriting hclosing ho =>
    exact .parting hclosed hopen hwriting hclosing (List.perm_singleton.mp (ho ▸ hp.symm))
  | flowing hclosed hopen hwriting hlength ho => exact .flowing hclosed hopen hwriting hlength (hp.symm.trans ho)
  | gone hclosed hopen hqueue hcount hdials =>
    exact .gone hclosed hopen hqueue (hp.count_eq _ ▸ hcount) fun o ho => hdials o (hp.mem_iff.mpr ho)

/-- At most one frame is on its way. -/
theorem count_write (h : WirePhase x operations) : operations.count .write = if x.writing then 1 else 0 := by
  cases h with
  | dialing o _ _ hwriting hdials ho =>
    rw [ho, hwriting]
    cases o <;> first | rfl | cases hdials
  | parting _ _ hwriting _ ho =>
    rw [ho, hwriting]
    rfl
  | flowing _ _ _ _ ho =>
    rw [ho.count_eq]
    cases x.writing <;> cases x.closing <;> rfl
  | gone _ _ _ hcount _ => exact hcount

/-- A frame is on its way over an open connection, or is left over from one. -/
theorem of_write (h : WirePhase x (.write :: operations)) :
    x.writing = true ∧ (x.closed = false ∧ x.isOpen = true ∨ x.closed = true ∧ x.queue = []) := by
  have hwriting : x.writing = true := by
    have hcount := h.count_write
    rw [List.count_cons_self] at hcount
    cases hw : x.writing with
    | true => rfl
    | false => simp [hw] at hcount
  refine ⟨hwriting, ?_⟩
  cases h with
  | dialing _ _ _ hidle => exact Bool.noConfusion (hwriting.symm.trans hidle)
  | parting _ _ hidle => exact Bool.noConfusion (hwriting.symm.trans hidle)
  | flowing hclosed hopen => exact .inl ⟨hclosed, hopen⟩
  | gone hclosed _ hqueue => exact .inr ⟨hclosed, hqueue⟩

theorem of_isOpen (h : WirePhase x operations) (hopen : x.isOpen = true) :
    x.closed = false ∧ x.writing = !x.queue.isEmpty := by
  cases h with
  | dialing _ _ hshut => exact Bool.noConfusion (hopen.symm.trans hshut)
  | parting _ hshut => exact Bool.noConfusion (hopen.symm.trans hshut)
  | flowing hclosed _ hwriting => exact ⟨hclosed, hwriting⟩
  | gone _ hshut => exact Bool.noConfusion (hopen.symm.trans hshut)

theorem of_closed (h : WirePhase x operations) (hclosed : x.closed = true) : x.isOpen = false ∧ x.queue = [] := by
  cases h with
  | dialing _ hlive => exact Bool.noConfusion (hclosed.symm.trans hlive)
  | parting hlive => exact Bool.noConfusion (hclosed.symm.trans hlive)
  | flowing hlive => exact Bool.noConfusion (hclosed.symm.trans hlive)
  | gone _ hopen hqueue => exact ⟨hopen, hqueue⟩

/-- As long as a connection is not closed, something is outstanding. -/
theorem ne_nil (h : WirePhase x operations) (hclosed : x.closed = false) : operations ≠ [] := by
  cases h with
  | dialing o _ _ _ _ ho => exact ho ▸ List.cons_ne_nil _ _
  | parting _ _ _ _ ho => exact ho ▸ List.cons_ne_nil _ _
  | flowing _ _ _ _ ho => exact fun hnil => List.cons_ne_nil _ _ (List.nil_perm.mp (hnil ▸ ho))
  | gone hgone => exact Bool.noConfusion (hclosed.symm.trans hgone)

/-- What is left when an operation ends that leads to an open connection. -/
theorem of_dials {o : Operation} (h : WirePhase x (o :: operations)) (ho : o.dials = true) :
    x.closed = false ∧ x.isOpen = false ∧ x.writing = false ∧ operations = [] := by
  cases h with
  | dialing _ hclosed hopen hwriting _ he => exact ⟨hclosed, hopen, hwriting, (List.cons.inj he).2⟩
  | parting hclosed hopen hwriting _ he => exact ⟨hclosed, hopen, hwriting, (List.cons.inj he).2⟩
  | flowing _ _ _ _ hp =>
    have hmem := hp.mem_iff.mp List.mem_cons_self
    revert hmem ho
    cases o <;> cases x.writing <;> cases x.closing <;> simp [Operation.dials]
  | gone _ _ _ _ hdials => exact Bool.noConfusion (ho.symm.trans (hdials o List.mem_cons_self))

/-- What is left when an operation ends does not lead to an open connection. -/
theorem dials_of_mem {o p : Operation} (h : WirePhase x (o :: operations)) (hp : p ∈ operations) :
    p.dials = false := by
  cases h with
  | dialing _ _ _ _ _ he =>
    rw [(List.cons.inj he).2] at hp
    cases hp
  | parting _ _ _ _ he =>
    rw [(List.cons.inj he).2] at hp
    cases hp
  | flowing _ _ _ _ hperm =>
    have hmem := hperm.mem_iff.mp (List.mem_cons_of_mem _ hp)
    revert hmem
    cases p <;> cases x.writing <;> cases x.closing <;> simp [Operation.dials]
  | gone _ _ _ _ hdials => exact hdials p (List.mem_cons_of_mem _ hp)

/-- Data that is received belongs to no phase. -/
theorem received (h : WirePhase x operations) (received : Octets) : WirePhase { x with received } operations := by
  cases h with
  | dialing o hclosed hopen hwriting hdials ho => exact .dialing o hclosed hopen hwriting hdials ho
  | parting hclosed hopen hwriting hclosing ho => exact .parting hclosed hopen hwriting hclosing ho
  | flowing hclosed hopen hwriting hlength ho => exact .flowing hclosed hopen hwriting hlength ho
  | gone hclosed hopen hqueue hcount hdials => exact .gone hclosed hopen hqueue hcount hdials

end WirePhase

namespace Outline

variable {k j : Outline}

/-- The operations that are pending, and those whose ends are still to be handled. -/
def outstanding (k : Outline) : List Operation := k.pending ++ k.ended.map Prod.fst

theorem outstanding_start (c : Call) (o : Operation) : (k.start c o).outstanding.Perm (o :: k.outstanding) := by
  rw [outstanding, start, note, List.append_assoc]
  exact List.perm_middle

theorem outstanding_abort (sort : Operation → Bool) : (k.abort sort).outstanding.Perm k.outstanding := by
  have hended : ((k.pending.filter sort).map fun o => (o, some Operation.aborted)).map Prod.fst =
      k.pending.filter sort :=
    List.map_map.trans (List.map_id _)
  rw [outstanding, abort, List.map_append, hended]
  refine (List.perm_append_comm.append_left _).trans ?_
  rw [← List.append_assoc]
  refine List.Perm.append_right _ (List.perm_append_comm.trans ?_)
  exact List.filter_append_perm sort k.pending

theorem Yields.outstanding {operation : Operation} {error : Option Octets} (h : k.Yields operation error j) :
    k.outstanding.Perm (operation :: j.outstanding) := by
  cases h with
  | pending received hmem => exact (List.perm_cons_erase hmem).append_right _
  | @ended rest hended =>
    simp only [Outline.outstanding, hended, List.map_cons]
    exact List.perm_middle

/-- What is outstanding fits the phase. -/
def Phased (k : Outline) : Prop := WirePhase k.wire k.outstanding

section

variable {o : Operation} {c : Call}

theorem phased_startWrite (hclosed : k.wire.closed = false) (hopen : k.wire.isOpen = true)
    (hclosing : k.wire.closing = false) (hqueue : k.wire.queue ≠ []) (ho : k.outstanding.Perm [.read]) :
    k.startWrite.Phased := by
  unfold startWrite
  cases hq : k.wire.queue with
  | nil => exact absurd hq hqueue
  | cons frame rest =>
    refine .flowing hclosed hopen ?_ (fun h => Bool.noConfusion (hclosing.symm.trans h)) ?_
    · simp [start, note, alter, hq]
    · exact (outstanding_start _ _).trans ((ho.cons _).trans (.swap _ _ _))

theorem Phased.send (h : k.Phased) (frame : Octets) : (k.send frame).Phased := by
  unfold Outline.send
  split
  next hgate =>
    obtain ⟨hclosed, hclosing⟩ : k.wire.closed = false ∧ k.wire.closing = false := by simpa using hgate
    cases h with
    | dialing o _ hopen hwriting hdials ho =>
      rw [hopen]
      exact .dialing o hclosed hopen hwriting hdials ho
    | parting _ _ _ hparting => exact Bool.noConfusion (hclosing.symm.trans hparting)
    | flowing _ hopen hwriting hlength ho =>
      cases hw : k.wire.writing with
      | true =>
        rw [hopen]
        refine .flowing hclosed hopen ?_ (fun h => Bool.noConfusion (hclosing.symm.trans h)) ho
        simp [alter, hw]
      | false =>
        rw [hopen]
        rw [hw, hclosing] at ho
        refine phased_startWrite hclosed hopen hclosing ?_ ho
        exact List.append_ne_nil_of_right_ne_nil _ (List.cons_ne_nil _ _)
    | gone hgone => exact Bool.noConfusion (hclosed.symm.trans hgone)
  next => exact h

theorem phased_shut (hclosed : k.wire.closed = false) (hopen : k.wire.isOpen = true)
    (hclosing : k.wire.closing = true) (hwriting : k.wire.writing = !k.wire.queue.isEmpty)
    (ho : k.outstanding.Perm (.read :: if k.wire.writing then [.write] else [])) : k.shut.Phased := by
  unfold shut
  split
  next hw =>
    have hw : k.wire.writing = false := by simpa using hw
    refine .flowing hclosed hopen ?_ ?_ ?_
    · simp [startClose, hw]
    · simp [startClose, hw]
    · simp only [startClose, wire_start, wire_alter, hw, hclosing] at ho ⊢
      exact (outstanding_start _ _).trans ((ho.cons _).trans (.swap _ _ _))
  next hw =>
    have hw : k.wire.writing = true := by simpa using hw
    rw [hw] at hwriting
    refine .flowing hclosed hopen ?_ (fun _ => ?_) ?_
    · cases hq : k.wire.queue with
      | nil => simp [hq] at hwriting
      | cons frame rest => simp [hw, hq]
    · simp only [wire_alter, hw, if_true]
      exact List.length_take_le _ _
    · simp only [wire_alter, hw, if_true] at ho ⊢
      exact ho

theorem Phased.close (h : k.Phased) : k.close.Phased := by
  unfold Outline.close
  split
  next hgate =>
    obtain ⟨hclosed, hclosing⟩ : k.wire.closed = false ∧ k.wire.closing = false := by simpa using hgate
    cases h with
    | dialing o _ hopen hwriting hdials ho =>
      have hgiven : WirePhase { k.wire with closing := true } k.outstanding :=
        .dialing o hclosed hopen hwriting hdials ho
      rw [hopen]
      refine hgiven.perm (List.Perm.symm ?_)
      exact (outstanding_abort _).trans (outstanding_abort _)
    | parting _ _ _ hparting => exact Bool.noConfusion (hclosing.symm.trans hparting)
    | flowing _ hopen hwriting hlength ho =>
      rw [hopen]
      rw [hclosing] at ho
      exact phased_shut hclosed hopen rfl hwriting ho
    | gone hgone => exact Bool.noConfusion (hclosed.symm.trans hgone)
  next => exact h

/-- What is left when an operation has ended: nothing that leads to an open connection, and a frame only if
one is still on its way. -/
structure Settled (k : Outline) : Prop where
  phased : k.wire.closed = true → k.Phased
  writes : k.outstanding.count .write = if k.wire.writing then 1 else 0
  dials : ∀ o ∈ k.outstanding, o.dials = false

theorem Settled.reportClosed (h : k.Settled) : k.reportClosed.Phased := by
  unfold Outline.reportClosed
  split
  next hclosed =>
    refine .gone rfl rfl rfl ?_ fun o ho => h.dials o ((outstanding_abort _).mem_iff.mp ho)
    exact ((outstanding_abort _).count_eq _).trans h.writes
  next hclosed => exact h.phased (by simpa using hclosed)

theorem Settled.fail (h : k.Settled) (what error : Octets) : (k.fail what error).Phased := by
  have hnote : ∀ e, (k.note e).Settled := fun _ => ⟨h.phased, h.writes, h.dials⟩
  unfold Outline.fail
  split
  next =>
    split
    next => exact (hnote _).reportClosed
    next => exact h.reportClosed
  next hclosed => exact h.phased (by simpa using hclosed)

/-- The connection as the handling of an operation's end finds it. -/
def atEnd (operation : Operation) (k : Outline) : Outline :=
  if operation = .write then k.alter fun x => { x with writing := false } else k

theorem settled_atEnd (h : WirePhase k.wire (o :: k.outstanding)) : (k.atEnd o).Settled := by
  unfold atEnd
  by_cases hwrite : o = .write
  · rw [if_pos hwrite]
    have hcount : k.outstanding.count .write = 0 := by
      have hwrites := h.count_write
      rw [hwrite, List.count_cons_self] at hwrites
      split at hwrites <;> omega
    refine ⟨fun hclosed => ?_, hcount, fun p hp => h.dials_of_mem hp⟩
    obtain ⟨hopen, hqueue⟩ := h.of_closed hclosed
    exact .gone hclosed hopen hqueue hcount fun p hp => h.dials_of_mem hp
  · rw [if_neg hwrite]
    have hcount : k.outstanding.count .write = if k.wire.writing then 1 else 0 := by
      rw [← h.count_write, List.count_cons_of_ne hwrite]
    refine ⟨fun hclosed => ?_, hcount, fun p hp => h.dials_of_mem hp⟩
    obtain ⟨hopen, hqueue⟩ := h.of_closed hclosed
    exact .gone hclosed hopen hqueue hcount fun p hp => h.dials_of_mem hp

/-- The next operation that leads to an open connection is the only one. -/
theorem phased_start (h : WirePhase k.wire (o :: k.outstanding)) (ho : o.dials = true) {p : Operation}
    (hp : p.dials = true) (c : Call) : (k.start c p).Phased := by
  obtain ⟨hclosed, hopen, hwriting, hnil⟩ := h.of_dials ho
  refine .dialing p hclosed hopen hwriting hp (List.perm_singleton.mp ?_)
  exact (outstanding_start c p).trans (.of_eq (congrArg _ hnil))

theorem phased_startHandshake (h : WirePhase k.wire (o :: k.outstanding)) (ho : o.dials = true) :
    k.startHandshake.Phased :=
  phased_start (k := ((k.note _).note _).note _) h ho rfl _

theorem phased_afterConnect (h : WirePhase k.wire (.connect :: k.outstanding)) : k.afterConnect.Phased := by
  have hsettled : ∀ es : List Entry, ({ k with journal := es ++ k.journal } : Outline).Settled :=
    fun es => settled_atEnd (o := .connect) (k := { k with journal := es ++ k.journal }) h
  unfold afterConnect startTls
  split
  next =>
    simp only
    split
    next => exact (hsettled [_]).fail _ _
    next =>
      split
      next => exact (hsettled [_, _]).fail _ _
      next => exact phased_start (k := ((k.note _).note _).note _) h rfl rfl _
  next => exact phased_startHandshake h rfl

theorem phased_afterHandshake (h : WirePhase k.wire (.handshake :: k.outstanding)) : k.afterHandshake.Phased := by
  obtain ⟨hclosed, hopen, hwriting, hnil⟩ := h.of_dials rfl
  unfold afterHandshake
  split
  next hclosing =>
    refine .parting hclosed hopen hwriting hclosing (List.perm_singleton.mp ?_)
    exact (outstanding_start _ _).trans (.of_eq (congrArg _ hnil))
  next hclosing =>
    have hclosing : k.wire.closing = false := by simpa using hclosing
    let opened : Outline := ((k.alter fun x => { x with isOpen := true }).note (.status true)).startRead
    have hread : opened.outstanding.Perm [.read] := (outstanding_start _ _).trans (.of_eq (congrArg _ hnil))
    split
    next hgate =>
      have hqueue : k.wire.queue ≠ [] := by
        intro hqueue
        simp [hqueue] at hgate
      exact phased_startWrite hclosed rfl hclosing hqueue hread
    next hgate =>
      refine .flowing hclosed rfl ?_ (fun h => Bool.noConfusion (hclosing.symm.trans h)) ?_
      · simpa [startRead, hwriting, hclosing] using hgate
      · simp only [startRead, wire_start, wire_note, wire_alter, hwriting, hclosing]
        exact hread

theorem phased_afterRead (h : WirePhase k.wire (.read :: k.outstanding)) : k.afterRead.Phased := by
  unfold afterRead
  split
  next hclosed =>
    refine (h.received []).perm (List.Perm.symm ?_)
    exact outstanding_start _ _
  next hclosed =>
    have hgone : k.Phased := (settled_atEnd h).phased (by simpa [atEnd] using hclosed)
    exact WirePhase.received hgone []

theorem phased_afterWrite (h : WirePhase k.wire (.write :: k.outstanding)) : (k.atEnd .write).afterWrite.Phased := by
  have hsettled : (k.atEnd .write).Settled := settled_atEnd h
  have hw : k.wire.writing = true := h.of_write.1
  unfold afterWrite
  dsimp only
  cases h with
  | dialing _ _ _ hwriting => exact Bool.noConfusion (hw.symm.trans hwriting)
  | parting _ _ hwriting => exact Bool.noConfusion (hw.symm.trans hwriting)
  | flowing hclosed hopen hwriting hlength ho =>
    rw [hw] at ho
    have hread : k.outstanding.Perm [.read] := (ho.trans (.swap _ _ _)).cons_inv
    split
    next hclosing =>
      have hdropped : k.wire.queue.drop 1 = [] := List.drop_eq_nil_of_le (hlength hclosing)
      refine .flowing hclosed hopen ?_ (fun _ => ?_) ?_
      · show false = !(k.wire.queue.drop 1).isEmpty
        rw [hdropped]
        rfl
      · show (k.wire.queue.drop 1).length ≤ 1
        rw [hdropped]
        exact Nat.zero_le _
      · have hclosing : k.wire.closing = true := hclosing
        simp only [startClose, atEnd, wire_start, wire_alter, if_true, hclosing]
        exact (outstanding_start _ _).trans ((hread.cons _).trans (.swap _ _ _))
    next hclosing =>
      have hclosing : k.wire.closing = false := by simpa [atEnd] using hclosing
      split
      next hqueue => exact phased_startWrite hclosed hopen hclosing (by simpa using hqueue) hread
      next hqueue =>
        refine .flowing hclosed hopen ?_ (fun h => Bool.noConfusion (hclosing.symm.trans h)) ?_
        · simpa [atEnd] using hqueue
        · simp only [atEnd, wire_alter, if_true, hclosing]
          exact hread
  | gone hclosed hopen hqueue _ hdials =>
    have hdropped : k.wire.queue.drop 1 = [] := by rw [hqueue, List.drop_nil]
    split
    next hclosing =>
      refine .gone hclosed hopen hdropped ?_ fun o ho => ?_
      · refine ((outstanding_start _ _).count_eq _).trans ?_
        exact (List.count_cons_of_ne Operation.noConfusion).trans hsettled.writes
      · rcases List.mem_cons.mp ((outstanding_start _ _).mem_iff.mp ho) with rfl | ho
        · rfl
        · exact hsettled.dials o ho
    next hclosing =>
      have hempty : (k.atEnd .write).wire.queue.drop 1 = [] := hdropped
      simp only [wire_alter, hempty]
      exact .gone hclosed hopen hdropped hsettled.writes hsettled.dials

/-- Whatever an operation ends with, the connection is in a phase after it. -/
theorem phased_finish (h : WirePhase k.wire (o :: k.outstanding)) (error : Option Octets) :
    (k.finish o error).Phased := by
  cases error with
  | some e =>
    cases o with
    | close => exact (settled_atEnd h).reportClosed
    | read =>
      have hread := settled_atEnd h
      show Phased (if e = Operation.ended then _ else _)
      split
      next => exact hread.reportClosed
      next => exact hread.fail _ _
    | _ => exact (settled_atEnd h).fail _ _
  | none =>
    cases o with
    | close => exact (settled_atEnd h).reportClosed
    | resolve => exact phased_start (k := k.note _) h rfl rfl _
    | connect => exact phased_afterConnect h
    | tls => exact phased_startHandshake h rfl
    | handshake => exact phased_afterHandshake h
    | read => exact phased_afterRead h
    | write => exact phased_afterWrite h

theorem Phased.perform (h : k.Phased) {task : Task} (htask : task.IsAsked) : (k.perform task).Phased := by
  cases task with
  | finish => exact htask.elim
  | send w frame => exact h.send frame
  | close w => exact h.close

theorem Yields.phase {error : Option Octets} (h : k.Yields o error j) (hk : k.Phased) :
    WirePhase j.wire (o :: j.outstanding) := by
  have hp := h.outstanding
  cases h with
  | pending received => exact (hk.received received).perm hp
  | ended => exact hk.perm hp

/-- What is outstanding stays so until it is handled. -/
theorem Moves.outstanding (h : k.Moves none j) : k.outstanding.Perm j.outstanding := by
  cases h with
  | still => exact .refl _
  | @ended operation error received hmem =>
    have hlost : k.Yields operation error (k.lose operation received) := .pending received hmem
    refine hlost.outstanding.trans (List.Perm.symm ?_)
    rw [Outline.outstanding, List.map_append, ← List.append_assoc]
    exact List.perm_append_singleton _ _

/-- In whatever order things happen, a connection is in a phase between them. -/
theorem Moves.phased {label : Option Task} (h : k.Moves label j) (hk : k.Phased) : j.Phased := by
  cases h with
  | still => exact hk
  | ended error received hmem => exact (hk.received received).perm (Moves.ended error received hmem).outstanding
  | asked htask => exact hk.perform htask
  | @finished operation error j hyields => exact phased_finish (hyields.phase hk) error

end

/-- A connection that has been told to connect, in outline. -/
def dialed (serverNameFails verifyHostFails : Bool) (endpoint : Endpoint) : Outline where
  wire := { endpoint, stream := some 1, attached := some 0 }
  journal := [.call (.resolve endpoint.host endpoint.port), .call (.stream endpoint.tls)]
  pending := [.resolve]
  serverNameFails := serverNameFails
  verifyHostFails := verifyHostFails

theorem phased_dialed (serverNameFails verifyHostFails : Bool) (endpoint : Endpoint) :
    (dialed serverNameFails verifyHostFails endpoint).Phased :=
  .dialing .resolve rfl rfl rfl rfl rfl

end Outline

namespace WireSession

variable {s t : WireSession} {log : List (Wire × Task)} {serverNameFails verifyHostFails : Bool}
  {reactions : List (Occasion × List WireOp)} {endpoint : Endpoint}

/-- What holds at the start and is kept by whatever happens holds in the end. -/
theorem Leads.induction {P : List (Wire × Task) → Outline → Prop} (h : Leads s log t) (hs : s.wires.Single)
    (start : P [] s.outline) (silent : ∀ {log k j}, P log k → k.Moves none j → P log j)
    (handled : ∀ {log k j task}, P log k → k.Moves (some task) j → P ((k.wire, task) :: log) j) :
    t.wires.Single ∧ P log t.outline := by
  induction h with
  | refl => exact ⟨hs, start⟩
  | silent _ hlast ih =>
    obtain ⟨hsingle, hmoves, -⟩ := hlast.moves ih.1
    exact ⟨hsingle, silent ih.2 hmoves⟩
  | handled _ hlast ih =>
    obtain ⟨hsingle, hmoves, -⟩ := hlast.moves ih.1
    exact ⟨hsingle, handled ih.2 hmoves⟩

/-- What whatever happens to a connection keeps, in the phase in which it finds it, holds in the end. -/
theorem Leads.invariant {P : Outline → Prop} (h : Leads s log t) (hs : s.wires.Single) (hphased : s.outline.Phased)
    (start : P s.outline) (step : ∀ {label k j}, k.Phased → P k → k.Moves label j → P j) :
    t.wires.Single ∧ t.outline.Phased ∧ P t.outline :=
  h.induction (P := fun _ k => k.Phased ∧ P k) hs ⟨hphased, start⟩
    (fun hk hm => ⟨hm.phased hk.1, step hk.1 hk.2 hm⟩) fun hk hm => ⟨hm.phased hk.1, step hk.1 hk.2 hm⟩

/-- A connection that has been told to connect once is in a phase, whatever has happened to it. -/
theorem Leads.phased (h : Leads (dialed serverNameFails verifyHostFails reactions endpoint) log t) :
    t.wires.Single ∧ t.outline.Phased := by
  obtain ⟨hsingle, hphased, -⟩ := h.invariant (P := fun _ => True) single_dialed (Outline.phased_dialed _ _ _) trivial
    fun _ _ _ => trivial
  exact ⟨hsingle, hphased⟩

end WireSession

end QuoteFeed
