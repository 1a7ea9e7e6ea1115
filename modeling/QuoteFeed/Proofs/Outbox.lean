import QuoteFeed.Proofs.Reporting

/-!
The frames of a connection: those that it accepts are written in their order, one after another, for as long
as it is open and not to be closed.
-/

namespace QuoteFeed

/-- No more frames are accepted or written. -/
def Wire.halted (x : Wire) : Bool := x.closed || x.closing

theorem Wire.halted_eq_false {x : Wire} (hclosed : x.closed = false) (hclosing : x.closing = false) :
    x.halted = false := by
  rw [halted, hclosed, hclosing]
  rfl

theorem Wire.halted_of_closing {x : Wire} (hclosing : x.closing = true) : x.halted = true := by
  rw [halted, hclosing, Bool.or_true]

/-- The frames on their way: one at most. -/
def Wire.busy (x : Wire) : Nat := if x.writing then 1 else 0

theorem Wire.busy_eq_one {x : Wire} (hwriting : x.writing = true) : x.busy = 1 := by
  rw [busy, hwriting]
  rfl

theorem Wire.busy_eq_zero {x : Wire} (hwriting : x.writing = false) : x.busy = 0 := by
  rw [busy, hwriting]
  rfl

def Entry.written? : Entry → Option Octets
  | call (.write frame) => some frame
  | _ => none

/-- The frames that have been handed to the network, the last one first. -/
def written (journal : List Entry) : List Octets := journal.filterMap Entry.written?

/-- The frames that have been taken from the user, the last one first. -/
def taken (log : List (Wire × Task)) : List Octets := log.filterMap fun p => p.2.sent?

/-- The frames that have been accepted, the last one first: those that a connection takes that is neither
closed nor to be closed. -/
def accepted (log : List (Wire × Task)) : List Octets :=
  log.filterMap fun p => if p.1.halted then none else p.2.sent?

/-- A frame has been written without an error. -/
def Task.isWrite : Task → Bool
  | finish _ .write none => true
  | finish .. | send .. | close _ => false

/-- How many frames have been written without an error. -/
def writes (log : List (Wire × Task)) : Nat := log.countP fun p => p.2.isWrite

theorem accepted_cons (x : Wire) (task : Task) (log : List (Wire × Task)) : accepted ((x, task) :: log) =
    (if x.halted then none else task.sent?).toList ++ accepted log :=
  List.filterMap_cons_eq_append _ _ _

theorem accepted_sublist (log : List (Wire × Task)) : (accepted log).Sublist (taken log) := by
  induction log with
  | nil => exact List.Sublist.slnil
  | cons p rest ih =>
    obtain ⟨x, task⟩ := p
    rw [accepted_cons, taken, List.filterMap_cons_eq_append]
    refine List.Sublist.append ?_ ih
    split
    next => exact List.nil_sublist _
    next => exact List.Sublist.refl _

namespace Outline

variable {k j l : Outline} {o : Operation}

/-- The frames that have been written and those that wait behind the one on its way, the last one first. -/
def backlog (k : Outline) : List Octets := (k.wire.queue.drop k.wire.busy).reverse ++ written k.journal

/-- Nothing has to do with frames. -/
structure Idles (k j : Outline) : Prop where
  written : written j.journal = written k.journal
  queue : j.wire.queue = k.wire.queue
  writing : j.wire.writing = k.wire.writing
  halted : j.wire.halted = k.wire.halted
  closed : j.wire.closed = k.wire.closed

/-- What becomes of the frames when one thing happens: a frame is accepted, or not, and so many frames have
been written. -/
structure Carries (k : Outline) (frame? : Option Octets) (ended : Nat) (j : Outline) : Prop where
  halted : j.wire.halted = true → written j.journal = written k.journal
  carried : j.wire.halted = false → k.wire.halted = false ∧ j.backlog = frame?.toList ++ k.backlog
  counted : j.wire.closed = false → k.wire.closed = false ∧
    (written j.journal).length + k.wire.busy = (written k.journal).length + j.wire.busy + ended
  writes : written j.journal = written k.journal ∨ j.wire.isOpen = true

theorem Idles.busy (h : Idles k j) : j.wire.busy = k.wire.busy := by
  rw [Wire.busy, Wire.busy, h.writing]

theorem Idles.backlog (h : Idles k j) : j.backlog = k.backlog := by
  rw [Outline.backlog, Outline.backlog, h.queue, h.busy, h.written]

theorem Idles.carries (h : Idles k j) : Carries k none 0 j where
  halted _ := h.written
  carried hj := ⟨h.halted.symm.trans hj, h.backlog⟩
  counted hj := ⟨h.closed.symm.trans hj, by rw [h.written, h.busy, Nat.add_zero]⟩
  writes := .inl h.written

/-- Nothing is written as the connection closes. -/
theorem carries_of_closed {frame? : Option Octets} {ended : Nat} (hclosed : j.wire.closed = true)
    (hwritten : written j.journal = written k.journal) : Carries k frame? ended j where
  halted _ := hwritten
  carried hj := by
    rw [Wire.halted, hclosed] at hj
    cases hj
  counted hj := Bool.noConfusion (hj.symm.trans hclosed)
  writes := .inl hwritten

theorem Idles.trans_carries {frame? : Option Octets} {ended : Nat} (h : Idles k j) (hj : Carries j frame? ended l) :
    Carries k frame? ended l where
  halted hl := (hj.halted hl).trans h.written
  carried hl := by
    obtain ⟨hhalted, hbacklog⟩ := hj.carried hl
    exact ⟨h.halted ▸ hhalted, hbacklog.trans (congrArg _ h.backlog)⟩
  counted hl := by
    obtain ⟨hclosed, hcount⟩ := hj.counted hl
    exact ⟨h.closed ▸ hclosed, by rwa [h.written, h.busy] at hcount⟩
  writes := hj.writes.imp_left fun hwritten => hwritten.trans h.written

theorem Carries.written_eq {frame? : Option Octets} {ended : Nat} (h : Carries k frame? ended j)
    (hk : k.wire.halted = true) : j.wire.halted = true ∧ written j.journal = written k.journal := by
  cases hj : j.wire.halted with
  | true => exact ⟨rfl, h.halted hj⟩
  | false => exact Bool.noConfusion (hk.symm.trans (h.carried hj).1)

/-- To write the first frame that waits changes nothing about what has been accepted. -/
theorem backlog_startWrite (hwriting : k.wire.writing = false) : k.startWrite.backlog = k.backlog := by
  unfold startWrite
  cases hq : k.wire.queue with
  | nil => rfl
  | cons frame rest =>
    simp only [backlog, Wire.busy, wire_start, wire_alter, hq, hwriting, journal_start, journal_alter, written,
      List.filterMap_cons, Entry.written?]
    simp

theorem length_written_startWrite (hwriting : k.wire.writing = false) :
    (written k.startWrite.journal).length = (written k.journal).length + k.startWrite.wire.busy := by
  unfold startWrite
  cases hq : k.wire.queue with
  | nil => simp [Wire.busy, hwriting]
  | cons frame rest => rfl

/-- To write the first frame that waits belongs to what has been done before it. -/
theorem Carries.startWrite {frame? : Option Octets} {ended : Nat} (h : Carries k frame? ended j)
    (hwriting : j.wire.writing = false) (hopen : j.wire.isOpen = true) (hhalted : j.wire.halted = false) :
    Carries k frame? ended j.startWrite := by
  obtain ⟨hsame, hsameClosed, hsameOpen⟩ : j.startWrite.wire.halted = j.wire.halted ∧
      j.startWrite.wire.closed = j.wire.closed ∧ j.startWrite.wire.isOpen = j.wire.isOpen := by
    unfold Outline.startWrite
    split
    next => exact ⟨rfl, rfl, rfl⟩
    next => exact ⟨rfl, rfl, rfl⟩
  obtain ⟨hbefore, hbacklog⟩ := h.carried hhalted
  refine ⟨fun hj => ?_, fun _ => ⟨hbefore, (backlog_startWrite hwriting).trans hbacklog⟩, fun hj => ?_,
    .inr (hsameOpen.trans hopen)⟩
  · exact Bool.noConfusion (hhalted.symm.trans (hsame.symm.trans hj))
  · obtain ⟨hclosed, hcounted⟩ := h.counted (hsameClosed.symm.trans hj)
    refine ⟨hclosed, ?_⟩
    rw [Wire.busy_eq_zero hwriting] at hcounted
    rw [length_written_startWrite hwriting]
    omega

/-- Nothing is behind a frame on its way but what is in the queue after it. -/
theorem Phased.busy_le (h : k.Phased) (hclosed : k.wire.closed = false) : k.wire.busy ≤ k.wire.queue.length := by
  cases h with
  | dialing _ _ _ hwriting => simp [Wire.busy, hwriting]
  | parting _ _ hwriting => simp [Wire.busy, hwriting]
  | flowing _ _ hwriting =>
    rw [Wire.busy, hwriting]
    cases k.wire.queue <;> simp
  | gone hgone => exact Bool.noConfusion (hclosed.symm.trans hgone)

theorem carries_send (h : k.Phased) (frame : Octets) : Carries k (some frame) 0 (k.send frame) := by
  unfold send
  split
  next hgate =>
    obtain ⟨hclosed, hclosing⟩ : k.wire.closed = false ∧ k.wire.closing = false := by simpa using hgate
    have hhalted : k.wire.halted = false := Wire.halted_eq_false hclosed hclosing
    let queued : Outline := k.alter fun x => { x with queue := x.queue ++ [frame] }
    have hbacklog : queued.backlog = frame :: k.backlog := by
      show ((k.wire.queue ++ [frame]).drop k.wire.busy).reverse ++ written k.journal = _
      rw [List.drop_append_of_le_length (h.busy_le hclosed), List.reverse_append]
      rfl
    have hqueued : Carries k (some frame) 0 queued :=
      ⟨fun _ => rfl, fun _ => ⟨hhalted, hbacklog⟩, fun _ => ⟨hclosed, rfl⟩, .inl rfl⟩
    dsimp only
    split
    next hfree =>
      obtain ⟨hopen, hwriting⟩ : k.wire.isOpen = true ∧ k.wire.writing = false := by simpa using hfree
      exact hqueued.startWrite hwriting hopen hhalted
    next => exact hqueued
  next hgate =>
    refine ⟨fun _ => rfl, fun hj => ?_, fun hj => ⟨hj, rfl⟩, .inl rfl⟩
    rw [Wire.halted] at hj
    simp at hj
    simp [hj] at hgate

theorem carries_close : Carries k none 0 k.close := by
  unfold close
  split
  next hgate =>
    obtain ⟨hclosed, -⟩ : k.wire.closed = false ∧ k.wire.closing = false := by simpa using hgate
    have hcut : ∀ j : Outline, j.wire.closing = true → written j.journal = written k.journal →
        j.wire.busy = k.wire.busy → Carries k none 0 j := fun j hj hwritten hbusy =>
      ⟨fun _ => hwritten, fun hno => Bool.noConfusion (hno.symm.trans (Wire.halted_of_closing hj)),
        fun _ => ⟨hclosed, by rw [hwritten, hbusy, Nat.add_zero]⟩, .inl hwritten⟩
    unfold shut
    dsimp only
    split
    next => exact hcut _ rfl rfl rfl
    next =>
      split
      next => exact hcut _ rfl rfl rfl
      next => exact hcut _ rfl rfl rfl
  next => exact Idles.carries ⟨rfl, rfl, rfl, rfl, rfl⟩

theorem written_reportClosed : written k.reportClosed.journal = written k.journal := by
  unfold reportClosed
  split
  next => rfl
  next => rfl

theorem written_fail (what error : Octets) : written (k.fail what error).journal = written k.journal := by
  unfold fail
  split
  next =>
    split
    next => exact written_reportClosed
    next => exact written_reportClosed
  next => rfl

theorem carries_fail (what error : Octets) : Carries k none 0 (k.fail what error) :=
  carries_of_closed (closed_fail what error) (written_fail what error)

theorem carries_afterConnect : Carries k none 0 k.afterConnect := by
  have hcall : ∀ es : List Entry, written (es ++ k.journal) = written k.journal →
      Idles k { k with journal := es ++ k.journal } := fun _ h => ⟨h, rfl, rfl, rfl, rfl⟩
  unfold afterConnect startTls
  split
  next =>
    dsimp only
    split
    next => exact (hcall [_] rfl).trans_carries (carries_fail _ _)
    next =>
      split
      next => exact (hcall [_, _] rfl).trans_carries (carries_fail _ _)
      next => exact Idles.carries ⟨rfl, rfl, rfl, rfl, rfl⟩
  next => exact Idles.carries ⟨rfl, rfl, rfl, rfl, rfl⟩

theorem carries_afterHandshake (h : WirePhase k.wire (.handshake :: k.outstanding)) :
    Carries k none 0 k.afterHandshake := by
  obtain ⟨hclosed, -, hwriting, -⟩ := h.of_dials rfl
  unfold afterHandshake
  split
  next => exact Idles.carries ⟨rfl, rfl, rfl, rfl, rfl⟩
  next hclosing =>
    have hclosing : k.wire.closing = false := by simpa using hclosing
    let opened : Outline := ((k.alter fun x => { x with isOpen := true }).note (.status true)).startRead
    have hopened : Carries k none 0 opened := Idles.carries ⟨rfl, rfl, rfl, rfl, rfl⟩
    dsimp only
    split
    next => exact hopened.startWrite hwriting rfl (Wire.halted_eq_false hclosed hclosing)
    next => exact hopened

theorem carries_afterRead : Carries k none 0 k.afterRead := by
  unfold afterRead
  split
  next => exact Idles.carries ⟨rfl, rfl, rfl, rfl, rfl⟩
  next => exact Idles.carries ⟨rfl, rfl, rfl, rfl, rfl⟩

/-- The frame on its way has been written: the next one follows. -/
theorem carries_afterWrite (h : WirePhase k.wire (.write :: k.outstanding)) :
    Carries k none 1 (k.atEnd .write).afterWrite := by
  obtain ⟨hwriting, hphase⟩ := h.of_write
  have hbusy : k.wire.busy = 1 := Wire.busy_eq_one hwriting
  let next : Outline := (k.atEnd .write).alter fun x => { x with queue := x.queue.drop 1 }
  have hbacklog : next.backlog = k.backlog := by
    rw [backlog, backlog, hbusy]
    rfl
  have hcount : (written k.journal).length + k.wire.busy = (written k.journal).length + 0 + 1 := by
    rw [hbusy]
  unfold afterWrite
  dsimp only
  split
  next hclosing =>
    have hhalted : next.wire.halted = true := Wire.halted_of_closing hclosing
    exact ⟨fun _ => rfl, fun hj => Bool.noConfusion (hhalted.symm.trans hj), fun hj => ⟨hj, hcount⟩, .inl rfl⟩
  next hclosing =>
    have hclosing : k.wire.closing = false := by simpa [atEnd] using hclosing
    have hnext : Carries k none 1 next :=
      ⟨fun _ => rfl, fun hj => ⟨hj, hbacklog⟩, fun hj => ⟨hj, hcount⟩, .inl rfl⟩
    split
    next hqueue =>
      obtain ⟨hclosed, hopen⟩ : k.wire.closed = false ∧ k.wire.isOpen = true := by
        refine hphase.resolve_right fun hgone => ?_
        simp [atEnd, hgone.2] at hqueue
      exact hnext.startWrite rfl hopen (Wire.halted_eq_false hclosed hclosing)
    next => exact hnext

theorem carries_finish (h : WirePhase k.wire (o :: k.outstanding)) (error : Option Octets) :
    Carries k none (if (Task.finish 0 o error).isWrite then 1 else 0) (k.finish o error) := by
  have hclose : Carries k none 0 k.reportClosed := carries_of_closed closed_reportClosed written_reportClosed
  cases error with
  | some e =>
    cases o with
    | close => exact hclose
    | read =>
      show Carries k none 0 (if e = Operation.ended then _ else _)
      split
      next => exact hclose
      next => exact carries_fail _ _
    | write => exact carries_of_closed (closed_fail _ _) (written_fail (k := k.atEnd .write) _ _)
    | _ => exact carries_fail _ _
  | none =>
    cases o with
    | close => exact hclose
    | resolve => exact Idles.carries ⟨rfl, rfl, rfl, rfl, rfl⟩
    | connect => exact carries_afterConnect
    | tls => exact Idles.carries ⟨rfl, rfl, rfl, rfl, rfl⟩
    | handshake => exact carries_afterHandshake h
    | read => exact carries_afterRead
    | write => exact carries_afterWrite h

/-- What becomes of the frames when something is handled. -/
theorem Moves.carries {task : Task} (h : k.Moves (some task) j) (hk : k.Phased) :
    Carries k task.sent? (if task.isWrite then 1 else 0) j := by
  cases h with
  | asked htask =>
    cases task with
    | finish => exact htask.elim
    | send w frame => exact carries_send hk frame
    | close w => exact carries_close
  | @finished operation error j hyields =>
    have hidles : Idles k j := by cases hyields <;> exact ⟨rfl, rfl, rfl, rfl, rfl⟩
    exact hidles.trans_carries (carries_finish (hyields.phase hk) error)

theorem Moves.idles (h : k.Moves none j) : Idles k j := by
  cases h with
  | still => exact ⟨rfl, rfl, rfl, rfl, rfl⟩
  | ended => exact ⟨rfl, rfl, rfl, rfl, rfl⟩

theorem wire_afterConnect : k.afterConnect.wire.closed = true ∨ k.afterConnect.wire = k.wire := by
  unfold afterConnect startTls
  split
  next =>
    dsimp only
    split
    next => exact .inl (closed_fail _ _)
    next =>
      split
      next => exact .inl (closed_fail _ _)
      next => exact .inr rfl
  next => exact .inr rfl

theorem isOpen_afterRead : k.afterRead.wire.isOpen = k.wire.isOpen := by
  unfold afterRead
  split
  next => rfl
  next => rfl

/-- Nothing but the end of the handshake opens a connection. -/
theorem isOpen_finish (h : WirePhase k.wire (o :: k.outstanding)) {error : Option Octets}
    (hj : (k.finish o error).wire.isOpen = true) : k.wire.isOpen = true ∨ o = .handshake ∧ error = none := by
  obtain ⟨hclosed, -⟩ := (phased_finish h error).of_isOpen hj
  cases error with
  | some e => exact Bool.noConfusion (hclosed.symm.trans (closed_finish (.inl (Option.some_ne_none e))))
  | none =>
    cases o with
    | close => exact Bool.noConfusion (hclosed.symm.trans (closed_finish (.inr rfl)))
    | handshake => exact .inr ⟨rfl, rfl⟩
    | resolve => exact .inl hj
    | tls => exact .inl hj
    | connect =>
      rcases wire_afterConnect (k := k) with hgone | hwire
      · exact Bool.noConfusion (hclosed.symm.trans hgone)
      · exact .inl (hwire ▸ hj)
    | read => exact .inl (isOpen_afterRead.symm.trans hj)
    | write => exact .inl (((mute_atEnd (o := .write)).trans mute_afterWrite).isOpen.symm.trans hj)

theorem Moves.isOpen {task : Task} (h : k.Moves (some task) j) (hk : k.Phased) (hj : j.wire.isOpen = true) :
    k.wire.isOpen = true ∨ task = .finish 0 .handshake none := by
  cases h with
  | asked htask =>
    cases task with
    | finish => exact htask.elim
    | send w frame => exact .inl ((mute_send frame).isOpen.symm.trans hj)
    | close w => exact .inl (mute_close.isOpen.symm.trans hj)
  | @finished operation error j hyields =>
    rcases isOpen_finish (hyields.phase hk) hj with hopen | ⟨rfl, rfl⟩
    · refine .inl ?_
      cases hyields <;> exact hopen
    · exact .inr rfl

/-- The frames of a connection to which this has happened. -/
structure Delivered (log : List (Wire × Task)) (k : Outline) : Prop where
  phased : k.Phased
  stands : written k.journal <:+ accepted log
  backlog : k.wire.halted = false → accepted log = k.backlog
  counted : k.wire.closed = false → (written k.journal).length = writes log + k.wire.busy
  shaken : k.wire.isOpen = true ∨ written k.journal ≠ [] → ∃ p ∈ log, p.2 = .finish 0 .handshake none

variable {log : List (Wire × Task)} {task : Task}

theorem Delivered.idle (h : Delivered log k) (hm : k.Moves none j) : Delivered log j := by
  have hidles := hm.idles
  have hopen : j.wire.isOpen = k.wire.isOpen := by cases hm <;> rfl
  refine ⟨hm.phased h.phased, hidles.written ▸ h.stands, fun hj => ?_, fun hj => ?_, fun hj => h.shaken ?_⟩
  · exact (h.backlog (hidles.halted.symm.trans hj)).trans hidles.backlog.symm
  · rw [hidles.written, hidles.busy]
    exact h.counted (hidles.closed.symm.trans hj)
  · rwa [← hopen, ← hidles.written]

/-- As long as a connection is open and not to be closed, it writes what it has. -/
theorem Delivered.flowing (h : Delivered log k) (hopen : k.wire.isOpen = true) (hclosing : k.wire.closing = false)
    (hclosed : k.wire.closed = false) :
    (k.wire.queue ≠ [] → k.wire.writing = true) ∧
      (written k.journal).reverse = (accepted log).reverse.take (writes log + 1) := by
  obtain ⟨-, hwriting⟩ := h.phased.of_isOpen hopen
  have haccepted : (accepted log).reverse = (written k.journal).reverse ++ k.wire.queue.drop k.wire.busy := by
    rw [h.backlog (Wire.halted_eq_false hclosed hclosing), Outline.backlog, List.reverse_append, List.reverse_reverse]
  have hcounted := h.counted hclosed
  rw [haccepted]
  cases hqueue : k.wire.queue with
  | nil =>
    rw [hqueue] at hwriting
    refine ⟨fun hne => absurd rfl hne, ?_⟩
    rw [Wire.busy, hwriting] at hcounted
    rw [List.drop_nil, List.append_nil, List.take_of_length_le]
    rw [List.length_reverse, hcounted]
    exact Nat.le_succ _
  | cons frame rest =>
    rw [hqueue] at hwriting
    refine ⟨fun _ => hwriting, ?_⟩
    rw [Wire.busy, hwriting] at hcounted
    exact (List.take_left' ((List.length_reverse).trans hcounted)).symm

theorem Delivered.handle (h : Delivered log k) (hm : k.Moves (some task) j) :
    Delivered ((k.wire, task) :: log) j := by
  have hcarries := hm.carries h.phased
  have hbacklog : j.wire.halted = false → accepted ((k.wire, task) :: log) = j.backlog := by
    intro hj
    obtain ⟨hhalted, he⟩ := hcarries.carried hj
    rw [accepted_cons, he, hhalted, h.backlog hhalted]
    rfl
  refine ⟨hm.phased h.phased, ?_, hbacklog, fun hj => ?_, ?_⟩
  · cases hj : j.wire.halted with
    | true =>
      rw [hcarries.halted hj, accepted_cons]
      exact h.stands.trans (List.suffix_append _ _)
    | false =>
      rw [hbacklog hj]
      exact List.suffix_append _ _
  · obtain ⟨hclosed, hcount⟩ := hcarries.counted hj
    have hbefore := h.counted hclosed
    have hwrites : writes ((k.wire, task) :: log) = writes log + if task.isWrite then 1 else 0 := List.countP_cons
    omega
  · intro hj
    have hopens : j.wire.isOpen = true → ∃ p ∈ (k.wire, task) :: log, p.2 = .finish 0 .handshake none := by
      intro hopen
      rcases hm.isOpen h.phased hopen with hk | rfl
      · obtain ⟨p, hp, he⟩ := h.shaken (.inl hk)
        exact ⟨p, List.mem_cons_of_mem _ hp, he⟩
      · exact ⟨_, List.mem_cons_self, rfl⟩
    rcases hj with hopen | hne
    · exact hopens hopen
    · rcases hcarries.writes with hsame | hopen
      · obtain ⟨p, hp, he⟩ := h.shaken (.inr (hsame ▸ hne))
        exact ⟨p, List.mem_cons_of_mem _ hp, he⟩
      · exact hopens hopen

end Outline

namespace WireSession

variable {s t : WireSession} {log : List (Wire × Task)} {serverNameFails verifyHostFails : Bool}
  {reactions : List (Occasion × List WireOp)} {endpoint : Endpoint}

theorem Leads.delivered (h : Leads (dialed serverNameFails verifyHostFails reactions endpoint) log t) :
    Outline.Delivered log t.outline := by
  have hstart : Outline.Delivered [] (Outline.dialed serverNameFails verifyHostFails endpoint) :=
    ⟨Outline.phased_dialed _ _ _, List.suffix_rfl, fun _ => rfl, fun _ => rfl,
      by rintro (hopen | hne) <;> contradiction⟩
  exact (h.induction single_dialed hstart (fun hk hm => hk.idle hm) fun hk hm => hk.handle hm).2

/-- Frames that have been asked for are taken in their order, before any that are asked for later. -/
theorem Leads.unsent_prefix (h : Leads s log t) (hs : s.wires.Single) :
    t.wires.Single ∧ s.wires.unsent <+: (taken log).reverse ++ t.wires.unsent := by
  induction h with
  | refl => exact ⟨hs, List.prefix_rfl⟩
  | silent _ hlast ih =>
    obtain ⟨hsingle, -, hunsent, -⟩ := hlast.moves ih.1
    exact ⟨hsingle, ih.2.trans ((List.prefix_append_right_inj _).mpr hunsent)⟩
  | @handled log t u task _ hlast ih =>
    obtain ⟨hsingle, -, hunsent, -⟩ := hlast.moves ih.1
    refine ⟨hsingle, ih.2.trans ?_⟩
    have htaken : (taken ((t.wires.wire 0, task) :: log)).reverse = (taken log).reverse ++ task.sent?.toList := by
      rw [taken, List.filterMap_cons_eq_append, List.reverse_append]
      cases task.sent? <;> rfl
    rw [htaken, List.append_assoc]
    exact (List.prefix_append_right_inj _).mpr hunsent

/-- Once a connection is closed or to be closed, it writes nothing. -/
theorem Leads.written_eq (h : Leads s log t) (hs : s.wires.Single) (hphased : s.outline.Phased)
    (hhalted : (s.wires.wire 0).halted = true) : written t.journal = written s.journal := by
  obtain ⟨-, -, -, hwritten⟩ := h.invariant (P := fun k => k.wire.halted = true ∧ written k.journal = written s.journal)
    hs hphased ⟨hhalted, rfl⟩ fun {label k j} hphased hk hm => by
      obtain ⟨hj, hsame⟩ : j.wire.halted = true ∧ written j.journal = written k.journal := by
        cases label with
        | none => exact hm.idles.carries.written_eq hk.1
        | some task => exact (hm.carries hphased).written_eq hk.1
      exact ⟨hj, hsame.trans hk.2⟩
  exact hwritten

/-- Whatever has happened to a connection that was told to connect once, in whatever order: one frame at most
is being written; the frames handed to the network are the first of those that have been accepted, in the order
in which they were asked for; the handshake comes before all of them, and none follows once the connection was
to be closed or has reported its close. As long as it is open and not to be closed, a frame that waits has one
being written before it, and of the frames accepted, one more has been handed to the network than have been
written, if there are as many. -/
theorem frames_in_order (h : Leads (dialed serverNameFails verifyHostFails reactions endpoint) log t) :
    t.outstanding.count .write ≤ 1 ∧
    written t.journal <:+ accepted log ∧ (accepted log).Sublist (taken log) ∧
    (∀ more u, Leads t more u → t.wires.unsent <+: (taken more).reverse ++ u.wires.unsent) ∧
    (written t.journal ≠ [] → ∃ p ∈ log, p.2 = .finish 0 .handshake none) ∧
    ((t.wires.wire 0).closing = true ∨ .closed ∈ reports t.journal →
      ∀ more u, Leads t more u → written u.journal = written t.journal) ∧
    ((t.wires.wire 0).isOpen = true → (t.wires.wire 0).closing = false → (t.wires.wire 0).closed = false →
      ((t.wires.wire 0).queue ≠ [] → .write ∈ t.outstanding) ∧
      (written t.journal).reverse = (accepted log).reverse.take (writes log + 1)) := by
  obtain ⟨hsingle, hphased⟩ := h.phased
  have hdelivered := h.delivered
  have hcount : t.outstanding.count .write = if t.outline.wire.writing then 1 else 0 := WirePhase.count_write hphased
  refine ⟨?_, hdelivered.stands, ?_, fun _ _ hmore => (hmore.unsent_prefix hsingle).2,
    fun hne => hdelivered.shaken (.inr hne), fun hgone _ _ hmore => hmore.written_eq hsingle hphased ?_,
    fun hopen hclosing hclosed => ?_⟩
  · rw [hcount]
    split
    next => exact Nat.le_refl _
    next => exact Nat.zero_le _
  · exact accepted_sublist log
  · rcases hgone with hclosing | hreported
    · exact Wire.halted_of_closing hclosing
    · rw [Wire.halted, h.told.mem_closed_iff.mp hreported, Bool.true_or]
  · obtain ⟨hwriting, htaken⟩ := hdelivered.flowing hopen hclosing hclosed
    refine ⟨fun hqueue => List.count_pos_iff.mp ?_, htaken⟩
    rw [hcount, hwriting hqueue]
    exact Nat.one_pos

/-- Two frames have been asked for before the connection was open, and the first one has been written. -/
def sentSession : WireSession :=
  played [.send (octets "A"), .send (octets "B"), .poll, .complete .resolve none [] false,
    .complete .connect none [] false, .complete .handshake none [] false, .complete .write none [] false]

theorem sentSession_in_order :
    written sentSession.journal = [octets "B", octets "A"] ∧ ∃ log, Leads plain log sentSession ∧
      (written sentSession.journal).reverse = (accepted log).reverse.take (writes log + 1) := by
  obtain ⟨log, h⟩ : ∃ log, Leads plain log sentSession := leads_played (by simp [WireOp.IsTraffic])
  obtain ⟨-, -, -, -, -, -, hflowing⟩ := frames_in_order h
  exact ⟨by decide +kernel, log, h, (hflowing (by decide +kernel) (by decide +kernel) (by decide +kernel)).2⟩

end WireSession

end QuoteFeed
