import QuoteFeed.Proofs.Beginnings
import QuoteFeed.Proofs.Reporting

/-!
What arrives over a connection: each message that is read to its end is delivered, alone and once, in the order of
reading; and the connection reads from its opening until its close, one message at a time.
-/

namespace QuoteFeed

/-- The content of a message, if it is one that the end of an operation brings. -/
def Operation.content? (operation : Operation) (error : Option Octets) (data : Octets) : Option Octets :=
  if operation = .read ∧ error = none then some data else none

theorem Operation.content?_of_ne {operation : Operation} (h : operation ≠ .read) (error : Option Octets)
    (data : Octets) : operation.content? error data = none :=
  if_neg fun hread => h hread.1

def Entry.message? : Entry → Option Octets
  | message payload => some payload
  | _ => none

/-- The messages that have been delivered, the last one first. -/
def messages (journal : List Entry) : List Octets := journal.filterMap Entry.message?

/-- Whether a message is asked for or delivered. -/
def Entry.isReading : Entry → Bool
  | call .read | message _ => true
  | _ => false

/-- What has to do with reading comes after the opening has been reported, and a message is asked for before the close
is. -/
def Entry.InTime (earlier : List Entry) : Entry → Prop
  | call .read => .status true ∈ earlier ∧ .status false ∉ earlier
  | message _ => .status true ∈ earlier
  | _ => True

/-- Everything in a journal has come in time. -/
def InTime : List Entry → Prop
  | [] => True
  | e :: earlier => e.InTime earlier ∧ InTime earlier

section

variable {e : Entry} {es journal later earlier : List Entry}

theorem Entry.inTime_of_not_reading (h : e.isReading = false) : e.InTime journal := by
  cases e with
  | call c => cases c <;> trivial
  | message => cases h
  | _ => trivial

theorem InTime.append (h : InTime journal) (hes : ∀ e ∈ es, e.isReading = false) : InTime (es ++ journal) := by
  induction es with
  | nil => exact h
  | cons e es ih =>
    refine ⟨Entry.inTime_of_not_reading (hes e List.mem_cons_self), ?_⟩
    exact ih fun e he => hes e (List.mem_cons_of_mem _ he)

theorem InTime.at (h : InTime (later ++ e :: earlier)) : e.InTime earlier := by
  induction later with
  | nil => exact h.1
  | cons _ _ ih => exact ih h.2

theorem messages_append (hes : ∀ e ∈ es, e.isReading = false) : messages (es ++ journal) = messages journal := by
  have hnone : messages es = [] := by
    refine List.filterMap_eq_nil_iff.mpr fun e he => ?_
    have hreading := hes e he
    cases e with
    | message => cases hreading
    | _ => rfl
  exact List.filterMap_append.trans (congrArg (· ++ messages journal) hnone)

theorem mem_status_iff (up : Bool) :
    .status up ∈ journal ↔ (if up then Report.opened else .closed) ∈ reports journal := by
  refine ⟨fun h => List.mem_filterMap.mpr ⟨_, h, by cases up <;> rfl⟩, fun h => ?_⟩
  obtain ⟨e, he, hreport⟩ := List.mem_filterMap.mp h
  cases e with
  | status up' => cases up <;> cases up' <;> first | exact he | cases hreport
  | error => cases up <;> cases hreport
  | message => cases up <;> cases hreport
  | _ => cases hreport

end

namespace Outline

variable {k j l : Outline} {o : Operation}

/-- How reads have ended that are still to be handled. -/
def readEnds (k : Outline) : List (Option Octets) := k.ended.filterMap fun p => if p.1 = .read then some p.2 else none

/-- How reading stands, with the message that has been read and is still to be delivered. -/
inductive Reads (k : Outline) : List Octets → Prop
  /-- The connection is not open yet, or closed. -/
  | idle : k.pending.count .read = 0 → k.readEnds = [] → (k.wire.closed = false → k.wire.received = []) → Reads k []
  | reading : k.pending.count .read = 1 → k.readEnds = [] → k.wire.closed = false → k.wire.received = [] →
      .status true ∈ k.journal → Reads k []
  | failed {e : Octets} : k.pending.count .read = 0 → k.readEnds = [some e] → .status true ∈ k.journal → Reads k []
  | arrived : k.pending.count .read = 0 → k.readEnds = [none] → .status true ∈ k.journal → Reads k [k.wire.received]

/-- The one read has ended, and its end is being handled. -/
structure Taken (k : Outline) : Prop where
  pending : k.pending.count .read = 0
  ends : k.readEnds = []
  opened : .status true ∈ k.journal

/-- What is done is apart from reading, except that a pending read may be cancelled when the connection closes. -/
structure Apart (k j : Outline) : Prop where
  received : j.wire.received = k.wire.received
  closed : k.wire.closed = true → j.wire.closed = true
  live : .read ∈ j.pending → j.wire.closed = k.wire.closed
  reads : j.pending.count .read = k.pending.count .read ∧ j.readEnds = k.readEnds ∨
    j.pending.count .read = 0 ∧
      j.readEnds = k.readEnds ++ List.replicate (k.pending.count .read) (some Operation.aborted)
  journal : ∃ es, j.journal = es ++ k.journal ∧ ∀ e ∈ es, e.isReading = false

namespace Apart

/-- Nothing is shown, and the connection is closed after it just in case it was before. -/
theorem still (hreceived : j.wire.received = k.wire.received) (hclosed : j.wire.closed = k.wire.closed)
    (hreads : j.pending.count .read = k.pending.count .read ∧ j.readEnds = k.readEnds ∨
      j.pending.count .read = 0 ∧
        j.readEnds = k.readEnds ++ List.replicate (k.pending.count .read) (some Operation.aborted))
    (hjournal : j.journal = k.journal) : Apart k j :=
  ⟨hreceived, hclosed.trans, fun _ => hclosed, hreads, [], hjournal, fun _ he => absurd he List.not_mem_nil⟩

theorem refl : Apart k k := still rfl rfl (.inl ⟨rfl, rfl⟩) rfl

theorem trans (h : Apart k j) (h' : Apart j l) : Apart k l := by
  obtain ⟨es, hes, hapart⟩ := h.journal
  obtain ⟨es', hes', hapart'⟩ := h'.journal
  refine ⟨h'.received.trans h.received, fun hk => h'.closed (h.closed hk), fun hread => ?_, ?_, es' ++ es, ?_, ?_⟩
  · refine (h'.live hread).trans (h.live ?_)
    rcases h'.reads with ⟨hcount, -⟩ | ⟨hcount, -⟩
    · exact List.count_pos_iff.mp (hcount ▸ List.count_pos_iff.mpr hread)
    · exact absurd hread (List.count_eq_zero.mp hcount)
  · rcases h.reads with ⟨hcount, hends⟩ | ⟨hcount, hends⟩
    · rw [← hcount, ← hends]
      exact h'.reads
    · right
      rcases h'.reads with ⟨hcount', hends'⟩ | ⟨hcount', hends'⟩
      · exact ⟨hcount'.trans hcount, hends'.trans hends⟩
      · rw [hcount, List.replicate_zero, List.append_nil] at hends'
        exact ⟨hcount', hends'.trans hends⟩
  · rw [hes', hes, List.append_assoc]
  · intro e he
    exact (List.mem_append.mp he).elim (hapart' e) (hapart e)

theorem alter (h : Apart k j) {f : Wire → Wire} (hreceived : ∀ x, (f x).received = x.received)
    (hclosed : ∀ x, (f x).closed = x.closed) : Apart k (j.alter f) :=
  h.trans (still (hreceived _) (hclosed _) (.inl ⟨rfl, rfl⟩) rfl)

theorem note (h : Apart k j) {e : Entry} (he : e.isReading = false) : Apart k (j.note e) :=
  h.trans ⟨rfl, id, fun _ => rfl, .inl ⟨rfl, rfl⟩, [e], rfl, fun _ hmem => List.mem_singleton.mp hmem ▸ he⟩

theorem start (h : Apart k j) {c : Call} (hc : (Entry.call c).isReading = false) (ho : o ≠ .read) :
    Apart k (j.start c o) := by
  refine (h.note hc).trans (still rfl rfl (.inl ⟨?_, rfl⟩) rfl)
  refine List.count_append.trans ?_
  rw [List.count_singleton, if_neg (by simpa using ho)]
  rfl

end Apart

theorem readEnds_abort (sort : Operation → Bool) : (k.abort sort).readEnds =
    k.readEnds ++ List.replicate ((k.pending.filter sort).count .read) (some Operation.aborted) := by
  refine List.filterMap_append.trans (congrArg (k.readEnds ++ ·) ?_)
  induction k.pending.filter sort with
  | nil => rfl
  | cons o os ih =>
    by_cases ho : o = .read
    · simp [ho, List.replicate_succ, ih]
    · simp [ho, ih]

theorem Apart.abortResolve (h : Apart k j) : Apart k j.abortResolve := by
  refine h.trans (still rfl rfl (.inl ⟨List.count_filter rfl, ?_⟩) rfl)
  have hnone : (j.pending.filter fun o => o = .resolve).count .read = 0 :=
    List.count_eq_zero.mpr fun hmem => by simpa using (List.mem_filter.mp hmem).2
  rw [Outline.abortResolve, readEnds_abort, hnone, List.replicate_zero, List.append_nil]

/-- A read that is pending ends as cancelled. -/
theorem reads_abortStream : k.abortStream.pending.count .read = 0 ∧
    k.abortStream.readEnds = k.readEnds ++ List.replicate (k.pending.count .read) (some Operation.aborted) := by
  refine ⟨List.count_eq_zero.mpr fun hmem => by simpa using (List.mem_filter.mp hmem).2, ?_⟩
  have hall : (k.pending.filter fun o => o ≠ .resolve).count .read = k.pending.count .read := List.count_filter rfl
  rw [abortStream, readEnds_abort, hall]

theorem Apart.abortStream (h : Apart k j) : Apart k j.abortStream :=
  h.trans (still rfl rfl (.inr reads_abortStream) rfl)

theorem Apart.reportClosed (h : Apart k j) : Apart k j.reportClosed := by
  unfold Outline.reportClosed
  split
  next hclosed =>
    refine h.trans ⟨rfl, fun hj => absurd hj (by simpa using hclosed), fun hread => ?_, .inr reads_abortStream,
      [.status false, .call .socketClose], rfl, by simp [Entry.isReading]⟩
    exact absurd hread (List.count_eq_zero.mp reads_abortStream.1)
  next => exact h

theorem Apart.fail (h : Apart k j) (what error : Octets) : Apart k (j.fail what error) := by
  unfold Outline.fail
  split
  next =>
    split
    next => exact (h.note (e := .error _) rfl).reportClosed
    next => exact h.reportClosed
  next => exact h

theorem Apart.startWrite (h : Apart k j) : Apart k j.startWrite := by
  unfold Outline.startWrite
  split
  next => exact h
  next frame _ _ =>
    have hbegun : Apart k (j.alter fun x => { x with writing := true }) := h.alter (fun _ => rfl) fun _ => rfl
    exact hbegun.start (c := .write frame) rfl Operation.noConfusion

theorem Apart.startClose (h : Apart k j) : Apart k j.startClose := h.start rfl Operation.noConfusion

theorem apart_send (frame : Octets) : Apart k (k.send frame) := by
  unfold send
  split
  next =>
    have hqueued : Apart k (k.alter fun x => { x with queue := x.queue ++ [frame] }) :=
      Apart.refl.alter (fun _ => rfl) fun _ => rfl
    dsimp only
    split
    next => exact hqueued.startWrite
    next => exact hqueued
  next => exact .refl

theorem apart_close : Apart k k.close := by
  unfold close giveUp shut
  split
  next =>
    have hclosing : Apart k (k.alter fun x => { x with closing := true }) :=
      Apart.refl.alter (fun _ => rfl) fun _ => rfl
    dsimp only
    split
    next =>
      have hcancelled := (hclosing.note (e := .call .resolverCancel) rfl).abortResolve
      exact (hcancelled.note (e := .call .cancel) rfl).abortStream
    next =>
      have hcut : Apart k ((k.alter fun x => { x with closing := true }).alter
          fun x => { x with queue := x.queue.take (if x.writing then 1 else 0) }) :=
        hclosing.alter (fun _ => rfl) fun _ => rfl
      split
      next => exact hcut.startClose
      next => exact hcut
  next => exact .refl

theorem Apart.startHandshake (h : Apart k j) : Apart k j.startHandshake :=
  (((h.note (e := .call .expiresNever) rfl).note (e := .call .clientTimeouts) rfl).note
    (e := .call .textFrames) rfl).start (c := .handshake _ _) rfl Operation.noConfusion

theorem Apart.afterConnect (h : Apart k j) : Apart k j.afterConnect := by
  unfold Outline.afterConnect startTls
  split
  next =>
    have hnamed := h.note (e := .call (.serverName j.wire.endpoint.host.untilNul)) rfl
    have hverified := hnamed.note (e := .call (.verifyHost j.wire.endpoint.host.untilNul)) rfl
    dsimp only
    split
    next => exact hnamed.fail _ _
    next =>
      split
      next => exact hverified.fail _ _
      next => exact (hverified.note (e := .call .verifyPeer) rfl).start rfl Operation.noConfusion
  next => exact h.startHandshake

theorem Apart.afterWrite (h : Apart k j) : Apart k j.afterWrite := by
  have hnext : Apart k (j.alter fun x => { x with queue := x.queue.drop 1 }) := h.alter (fun _ => rfl) fun _ => rfl
  unfold Outline.afterWrite
  dsimp only
  split
  next => exact hnext.startClose
  next =>
    split
    next => exact hnext.startWrite
    next => exact hnext

theorem Apart.atEnd (h : Apart k j) (o : Operation) : Apart k (j.atEnd o) := by
  unfold Outline.atEnd
  split
  next => exact h.alter (fun _ => rfl) fun _ => rfl
  next => exact h

theorem apart_finish {error : Option Octets} (hread : o = .read → error ≠ none)
    (hopens : ¬(o = .handshake ∧ error = none ∧ k.wire.closing = false)) : Apart k (k.finish o error) := by
  cases error with
  | some e =>
    cases o with
    | close => exact Apart.refl.reportClosed
    | read =>
      show Apart k (if e = Operation.ended then _ else _)
      split
      next => exact Apart.refl.reportClosed
      next => exact Apart.refl.fail _ _
    | write => exact (Apart.refl.atEnd .write).fail _ _
    | _ => exact Apart.refl.fail _ _
  | none =>
    cases o with
    | close => exact Apart.refl.reportClosed
    | resolve => exact (Apart.refl.note (e := .call (.expiresAfter 30000)) rfl).start rfl Operation.noConfusion
    | connect => exact Apart.refl.afterConnect
    | tls => exact Apart.refl.startHandshake
    | handshake =>
      show Apart k (if k.wire.closing then _ else _)
      split
      next => exact Apart.refl.startClose
      next hclosing => exact absurd ⟨rfl, rfl, by simpa using hclosing⟩ hopens
    | read => exact absurd rfl (hread rfl)
    | write => exact (Apart.refl.atEnd .write).afterWrite

/-- A connection that opens begins to read. -/
theorem apart_afterHandshake (hclosing : k.wire.closing = false) :
    Apart ((k.alter fun x => { x with isOpen := true }).note (.status true)).startRead k.afterHandshake := by
  rw [afterHandshake, if_neg (by simp [hclosing])]
  dsimp only
  split
  next => exact Apart.refl.startWrite
  next => exact .refl

/-- As long as no read is pending, none ends either. -/
theorem Apart.unread (h : Apart k j) (hcount : k.pending.count .read = 0) :
    j.pending.count .read = 0 ∧ j.readEnds = k.readEnds := by
  rcases h.reads with ⟨hc, he⟩ | ⟨hc, he⟩
  · exact ⟨hc.trans hcount, he⟩
  · rw [hcount, List.replicate_zero, List.append_nil] at he
    exact ⟨hc, he⟩

theorem Apart.opened (h : Apart k j) (hk : .status true ∈ k.journal) : .status true ∈ j.journal := by
  obtain ⟨es, hes, -⟩ := h.journal
  exact hes ▸ List.mem_append_right _ hk

variable {waiting : List Octets}

theorem Reads.apart (h : k.Reads waiting) (hj : Apart k j) : j.Reads waiting := by
  cases h with
  | idle hcount hends hreceived =>
    obtain ⟨hc, he⟩ := hj.unread hcount
    refine .idle hc (he.trans hends) fun hclosed => hj.received.trans (hreceived ?_)
    exact Bool.eq_false_iff.mpr fun hk => Bool.noConfusion (hclosed.symm.trans (hj.closed hk))
  | reading hcount hends hclosed hreceived hopened =>
    rcases hj.reads with ⟨hc, he⟩ | ⟨hc, he⟩
    · have hread : .read ∈ j.pending := List.count_pos_iff.mp (hc ▸ hcount ▸ Nat.one_pos)
      exact .reading (hc.trans hcount) (he.trans hends) ((hj.live hread).trans hclosed) (hj.received.trans hreceived)
        (hj.opened hopened)
    · rw [hends, hcount] at he
      exact .failed hc he (hj.opened hopened)
  | failed hcount hends hopened =>
    obtain ⟨hc, he⟩ := hj.unread hcount
    exact .failed hc (he.trans hends) (hj.opened hopened)
  | arrived hcount hends hopened =>
    obtain ⟨hc, he⟩ := hj.unread hcount
    exact hj.received ▸ .arrived hc (he.trans hends) (hj.opened hopened)

theorem Phased.read_mem (h : k.Phased) (hopen : k.wire.isOpen = true) : .read ∈ k.outstanding := by
  cases h with
  | dialing _ _ hshut => exact Bool.noConfusion (hopen.symm.trans hshut)
  | parting _ hshut => exact Bool.noConfusion (hopen.symm.trans hshut)
  | flowing _ _ _ _ hperm => exact hperm.mem_iff.mpr List.mem_cons_self
  | gone _ hshut => exact Bool.noConfusion (hopen.symm.trans hshut)

/-- As many messages wait to be delivered as reads have ended without an error. -/
theorem Reads.length_eq (h : k.Reads waiting) : waiting.length = k.ended.count (.read, none) := by
  have hended : k.readEnds.count none = k.ended.count (.read, none) := by
    rw [readEnds]
    induction k.ended with
    | nil => rfl
    | cons p rest ih =>
      obtain ⟨o, error⟩ := p
      by_cases ho : o = .read <;> simp [ho, ih, List.count_cons]
  rw [← hended]
  cases h with
  | idle _ he => rw [he]; rfl
  | reading _ he => rw [he]; rfl
  | failed _ he => rw [he]; rfl
  | arrived _ he => rw [he]; rfl

theorem Reads.count_le (h : k.Reads waiting) : k.outstanding.count .read ≤ 1 := by
  have hended : (k.ended.map Prod.fst).count .read = k.readEnds.length := by
    rw [readEnds]
    induction k.ended with
    | nil => rfl
    | cons p rest ih => by_cases hp : p.1 = .read <;> simp [hp, ih]
  have hcount : k.outstanding.count .read = k.pending.count .read + k.readEnds.length := by
    rw [outstanding, List.count_append, hended]
  cases h with
  | idle hc he => simp [hcount, hc, he]
  | reading hc he => simp [hcount, hc, he]
  | failed hc he => simp [hcount, hc, he]
  | arrived hc he => simp [hcount, hc, he]

theorem readEnds_append (ends : List (Operation × Option Octets)) :
    ({ k with ended := k.ended ++ ends } : Outline).readEnds =
      k.readEnds ++ ends.filterMap fun p => if p.1 = .read then some p.2 else none :=
  List.filterMap_append

theorem readEnds_cons {p : Operation × Option Octets} {rest : List (Operation × Option Octets)}
    (h : k.ended = p :: rest) : k.readEnds =
      (if p.1 = .read then some p.2 else none).toList ++ ({ k with ended := rest } : Outline).readEnds := by
  rw [readEnds, h]
  exact List.filterMap_cons_eq_append _ _ _

section

variable {error : Option Octets} {rest : List (Operation × Option Octets)}

/-- When the pending read ends, nothing else has been received. -/
theorem Reads.taken (h : k.Reads waiting) (hread : .read ∈ k.pending) (data : Octets) :
    waiting = [] ∧ (k.gain .read data).Taken ∧ (k.gain .read data).wire.received = data := by
  have hne : k.pending.count .read ≠ 0 := Nat.ne_of_gt (List.count_pos_iff.mpr hread)
  cases h with
  | idle hcount => exact absurd hcount hne
  | reading hcount hends _ hreceived hopened =>
    refine ⟨rfl, ⟨?_, hends, hopened⟩, congrArg (· ++ data) hreceived⟩
    refine List.count_erase_self.trans ?_
    rw [hcount]
  | failed hcount => exact absurd hcount hne
  | arrived hcount => exact absurd hcount hne

/-- When the end of a read is handled that has waited, nothing else waits. -/
theorem Reads.taken_ended (h : k.Reads waiting) (hended : k.ended = (.read, error) :: rest) :
    waiting = (Operation.read.content? error k.wire.received).toList ∧ ({ k with ended := rest } : Outline).Taken := by
  have hcons : k.readEnds = error :: ({ k with ended := rest } : Outline).readEnds := readEnds_cons hended
  cases h with
  | idle _ hends => exact absurd (hcons.symm.trans hends) (List.cons_ne_nil _ _)
  | reading _ hends => exact absurd (hcons.symm.trans hends) (List.cons_ne_nil _ _)
  | failed hcount hends hopened =>
    obtain ⟨rfl, hnil⟩ := List.cons.inj (hcons.symm.trans hends)
    exact ⟨rfl, hcount, hnil, hopened⟩
  | arrived hcount hends hopened =>
    obtain ⟨rfl, hnil⟩ := List.cons.inj (hcons.symm.trans hends)
    exact ⟨rfl, hcount, hnil, hopened⟩

/-- The end of a read is to be handled later. -/
theorem Taken.waits (h : k.Taken) (error : Option Octets) :
    ({ k with ended := k.ended ++ [(.read, error)] } : Outline).Reads
      (Operation.read.content? error k.wire.received).toList := by
  have hends : ({ k with ended := k.ended ++ [(.read, error)] } : Outline).readEnds = [error] := by
    rw [readEnds_append, h.ends]
    rfl
  cases error with
  | none => exact .arrived h.pending hends h.opened
  | some e => exact .failed h.pending hends h.opened

/-- Reading stands as before if only another operation ends. -/
theorem Reads.congr (h : k.Reads waiting) (hpending : j.pending.count .read = k.pending.count .read)
    (hends : j.readEnds = k.readEnds) (hwire : j.wire = k.wire) (hjournal : j.journal = k.journal) :
    j.Reads waiting :=
  h.apart (.still (congrArg _ hwire) (congrArg _ hwire) (.inl ⟨hpending, hends⟩) hjournal)

theorem Reads.gain (h : k.Reads waiting) (ho : o ≠ .read) (data : Octets) : (k.gain o data).Reads waiting := by
  have hgain : k.gain o data = { k with pending := k.pending.erase o } := by
    rw [Outline.gain, if_neg ho]
    rfl
  rw [hgain]
  exact h.congr (List.count_erase_of_ne ho.symm) rfl rfl rfl

theorem Reads.ended (h : k.Reads waiting) (ho : o ≠ .read) :
    ({ k with ended := k.ended ++ [(o, error)] } : Outline).Reads waiting := by
  refine h.congr rfl ?_ rfl rfl
  rw [readEnds_append]
  simp [ho]

theorem Reads.handled (h : k.Reads waiting) (ho : o ≠ .read) (hended : k.ended = (o, error) :: rest) :
    ({ k with ended := rest } : Outline).Reads waiting := by
  refine h.congr rfl ?_ rfl rfl
  rw [readEnds_cons hended]
  simp [ho]

/-- What the handling of an operation's end comes to: so many messages are delivered, and another one may wait. -/
structure Delivers (k : Outline) (delivered waiting : List Octets) (j : Outline) : Prop where
  reads : j.Reads waiting
  messages : messages j.journal = delivered ++ messages k.journal
  inTime : InTime k.journal → InTime j.journal

theorem Apart.delivers (h : Apart k j) (hj : j.Reads waiting) : Delivers k [] waiting j := by
  obtain ⟨es, hes, hapart⟩ := h.journal
  exact ⟨hj, hes ▸ messages_append hapart, fun hk => hes ▸ hk.append hapart⟩

/-- The one message that has been read is delivered, and the next one is asked for unless the connection is closed. -/
theorem Taken.delivers (h : k.Taken) (hlive : k.wire.closed = false → .status false ∉ k.journal)
    (error : Option Octets) :
    Delivers k (Operation.read.content? error k.wire.received).toList [] (k.finish .read error) := by
  cases error with
  | some e =>
    have hapart : Apart k (k.finish .read (some e)) :=
      apart_finish (fun _ => Option.some_ne_none e) fun hopens => Operation.noConfusion hopens.1
    obtain ⟨hcount, hends⟩ := hapart.unread h.pending
    have hclosed : (k.finish .read (some e)).wire.closed = true := closed_finish (.inl (Option.some_ne_none e))
    exact hapart.delivers (.idle hcount (hends.trans h.ends) fun hno => Bool.noConfusion (hno.symm.trans hclosed))
  | none =>
    show Delivers k [k.wire.received] [] (if !k.wire.closed then _ else _)
    split
    next hclosed =>
      have hclosed : k.wire.closed = false := by simpa using hclosed
      have hopened : .status true ∈ .message k.wire.received :: k.journal := List.mem_cons_of_mem _ h.opened
      have hunclosed : .status false ∉ .message k.wire.received :: k.journal := fun hmem =>
        hlive hclosed (List.mem_of_ne_of_mem Entry.noConfusion hmem)
      refine ⟨.reading ?_ h.ends hclosed rfl (List.mem_cons_of_mem _ hopened), rfl, fun hk => ?_⟩
      · exact List.count_append.trans (congrArg (· + 1) h.pending)
      · exact ⟨⟨hopened, hunclosed⟩, h.opened, hk⟩
    next hclosed =>
      exact ⟨.idle h.pending h.ends fun _ => rfl, rfl, fun hk => ⟨h.opened, hk⟩⟩

/-- The end of another operation delivers nothing. -/
theorem Reads.delivers (h : k.Reads waiting) (hlive : k.wire.closed = false → .status false ∉ k.journal)
    (hphase : WirePhase k.wire (o :: k.outstanding)) (ho : o ≠ .read) (error : Option Octets) :
    Delivers k [] waiting (k.finish o error) := by
  by_cases hopens : o = .handshake ∧ error = none ∧ k.wire.closing = false
  · obtain ⟨rfl, rfl, hclosing⟩ := hopens
    obtain ⟨hclosed, -, -, hnil⟩ := hphase.of_dials rfl
    obtain ⟨hpending, hended⟩ := List.append_eq_nil_iff.mp hnil
    have hends : k.readEnds = [] := by rw [readEnds, List.map_eq_nil_iff.mp hended]; rfl
    let opened : Outline := ((k.alter fun x => { x with isOpen := true }).note (.status true)).startRead
    have hopened : Delivers k [] waiting opened := by
      cases h with
      | idle hcount _ hreceived =>
        refine ⟨.reading ?_ hends hclosed (hreceived hclosed) ?_, rfl,
          fun hk => ⟨⟨List.mem_cons_self, ?_⟩, trivial, hk⟩⟩
        · exact List.count_append.trans (congrArg (· + 1) hcount)
        · exact List.mem_cons_of_mem _ List.mem_cons_self
        · exact fun hmem => hlive hclosed (List.mem_of_ne_of_mem (by simp) hmem)
      | reading hcount => simp [hpending] at hcount
      | failed _ he => simp [hends] at he
      | arrived _ he => simp [hends] at he
    have hapart : Apart opened k.afterHandshake := apart_afterHandshake hclosing
    have hrest := hapart.delivers (hopened.reads.apart hapart)
    exact ⟨hrest.reads, hrest.messages.trans hopened.messages, fun hk => hrest.inTime (hopened.inTime hk)⟩
  · have hapart : Apart k (k.finish o error) := apart_finish (fun hread => absurd hread ho) hopens
    exact hapart.delivers (h.apart hapart)

end

/-- What happens to a connection, in outline, with the content of the message that it brings, if it is this. -/
inductive Brings (k : Outline) : Option Octets → Outline → Prop
  | still : Brings k none k
  | ended {operation : Operation} (error : Option Octets) (data : Octets) : operation ∈ k.pending →
      Brings k (operation.content? error data)
        { k.gain operation data with ended := (k.gain operation data).ended ++ [(operation, error)] }
  | asked {task : Task} : task.IsAsked → Brings k none (k.perform task)
  | finished {operation : Operation} (error : Option Octets) (data : Octets) : operation ∈ k.pending →
      Brings k (operation.content? error data) ((k.gain operation data).finish operation error)
  | handled {operation : Operation} {error : Option Octets} {rest : List (Operation × Option Octets)} :
      k.ended = (operation, error) :: rest →
      Brings k none (({ k with ended := rest } : Outline).finish operation error)

theorem Brings.moves {content? : Option Octets} (h : k.Brings content? j) : ∃ label, k.Moves label j := by
  cases h with
  | still => exact ⟨_, .still⟩
  | ended error data hmem => exact ⟨_, .ended error _ hmem⟩
  | asked htask => exact ⟨_, .asked htask⟩
  | finished error data hmem => exact ⟨_, .finished (.pending _ hmem)⟩
  | handled hended => exact ⟨_, .finished (.ended hended)⟩

/-- These are the contents of the messages that have been read, the last one first: those that have been delivered,
and the one that is still to be. -/
structure Inbound (contents : List Octets) (k : Outline) : Prop where
  phased : k.Phased
  told : Told k.wire.isOpen k.wire.closed (reports k.journal)
  inTime : InTime k.journal
  arrived : ∃ waiting, k.Reads waiting ∧ contents = waiting ++ messages k.journal

variable {contents : List Octets} {content? : Option Octets}

theorem Inbound.step (h : Inbound contents k) (hj : k.Brings content? j) :
    Inbound (content?.toList ++ contents) j := by
  obtain ⟨waiting, hreads, rfl⟩ := h.arrived
  obtain ⟨label, hmoves⟩ := hj.moves
  have htold : Told j.wire.isOpen j.wire.closed (reports j.journal) := (hmoves.utters h.phased).told h.told
  have hlive : k.wire.closed = false → .status false ∉ k.journal := fun hclosed hmem =>
    Bool.noConfusion (hclosed.symm.trans (h.told.mem_closed_iff.mp ((mem_status_iff false).mp hmem)))
  suffices hrest : InTime j.journal ∧ ∃ left, j.Reads left ∧
      content?.toList ++ (waiting ++ messages k.journal) = left ++ messages j.journal from
    ⟨hmoves.phased h.phased, htold, hrest.1, hrest.2⟩
  cases hj with
  | still => exact ⟨h.inTime, waiting, hreads, rfl⟩
  | @ended operation error data hmem =>
    refine ⟨h.inTime, ?_⟩
    by_cases ho : operation = .read
    · subst ho
      obtain ⟨rfl, htaken, hreceived⟩ := hreads.taken hmem data
      exact ⟨_, htaken.waits error, by rw [hreceived]; rfl⟩
    · exact ⟨_, (hreads.gain ho data).ended ho, by rw [Operation.content?_of_ne ho]; rfl⟩
  | @asked task htask =>
    have hapart : Apart k (k.perform task) := by
      cases task with
      | finish => exact htask.elim
      | send w frame => exact apart_send frame
      | close w => exact apart_close
    have hdelivers := hapart.delivers (hreads.apart hapart)
    exact ⟨hdelivers.inTime h.inTime, _, hdelivers.reads, by rw [hdelivers.messages]; rfl⟩
  | @finished operation error data hmem =>
    have hyields : k.Yields operation error (k.gain operation data) := .pending _ hmem
    by_cases ho : operation = .read
    · subst ho
      obtain ⟨rfl, htaken, hreceived⟩ := hreads.taken hmem data
      have hdelivers := htaken.delivers hlive error
      refine ⟨hdelivers.inTime h.inTime, _, hdelivers.reads, ?_⟩
      rw [hdelivers.messages, hreceived]
      rfl
    · have hdelivers := (hreads.gain ho data).delivers hlive (hyields.phase h.phased) ho error
      refine ⟨hdelivers.inTime h.inTime, _, hdelivers.reads, ?_⟩
      rw [hdelivers.messages, Operation.content?_of_ne ho]
      rfl
  | @handled operation error rest hended =>
    have hyields : k.Yields operation error { k with ended := rest } := .ended hended
    by_cases ho : operation = .read
    · subst ho
      obtain ⟨rfl, htaken⟩ := hreads.taken_ended hended
      have hdelivers := htaken.delivers hlive error
      refine ⟨hdelivers.inTime h.inTime, _, hdelivers.reads, ?_⟩
      rw [hdelivers.messages]
      rfl
    · have hdelivers := (hreads.handled ho hended).delivers hlive (hyields.phase h.phased) ho error
      refine ⟨hdelivers.inTime h.inTime, _, hdelivers.reads, ?_⟩
      rw [hdelivers.messages]
      rfl

/-- A connection that begins to dial has read nothing. -/
theorem inbound_dialed (serverNameFails verifyHostFails : Bool) (endpoint : Endpoint) {earlier : List Entry}
    (h : ∀ e ∈ earlier, e = .call .resolverCancel) :
    Inbound [] { dialed serverNameFails verifyHostFails endpoint with
      journal := (dialed serverNameFails verifyHostFails endpoint).journal ++ earlier } := by
  let shown : List Entry := (dialed serverNameFails verifyHostFails endpoint).journal ++ earlier
  have hapart : ∀ e ∈ shown, e.isReading = false ∧ e.report? = none := by
    intro e he
    rcases List.mem_append.mp he with he | he
    · rcases List.mem_cons.mp he with rfl | he
      · exact ⟨rfl, rfl⟩
      · rw [List.mem_singleton.mp he]
        exact ⟨rfl, rfl⟩
    · rw [h e he]
      exact ⟨rfl, rfl⟩
  have hreports : reports shown = [] := List.filterMap_eq_nil_iff.mpr fun e he => (hapart e he).2
  have hmessages : messages (shown ++ []) = messages [] := messages_append fun e he => (hapart e he).1
  have hintime : InTime (shown ++ []) := InTime.append trivial fun e he => (hapart e he).1
  rw [List.append_nil] at hmessages hintime
  refine ⟨phased_dialed serverNameFails verifyHostFails endpoint, ?_, hintime, [], .idle rfl rfl fun _ => rfl,
    hmessages.symm⟩
  show Told false false (reports shown)
  rw [hreports]
  exact .nothing

end Outline

namespace WireSession

/-- One thing happens to a connection. If it is that a message is read to its end, its content is told. -/
inductive Brings (s : WireSession) : Option Octets → WireSession → Prop
  | asked (task : Task) : task.IsAsked → Brings s none { s with wires := s.wires.post task }
  | ended {notify : Nat → Report → Step WireSession Unit} {operation : Operation} {error : Option Octets}
      {data : Octets} {t : WireSession} :
      (Exchange.complete notify operation error data true).outcome s = some (.ok true, t) →
      Brings s (operation.content? error data) t
  | finished {notify : Nat → Report → Step WireSession Unit} {operation : Operation} {error : Option Octets}
      {data : Octets} {t : WireSession} :
      Courteous s.reactions notify →
      (Exchange.complete notify operation error data false).outcome s = some (.ok true, t) →
      Brings s (operation.content? error data) t
  | polled {notify : Nat → Report → Step WireSession Unit} {task : Task} {rest : List Task} {t : WireSession} :
      Courteous s.reactions notify → s.wires.tasks = task :: rest →
      (Exchange.perform notify task).outcome (s.popped rest) = some (.ok (), t) → Brings s none t

/-- One thing after another happens to a connection. The contents of the messages that are read to their ends are told,
the last one first. -/
inductive Receives (s : WireSession) : List Octets → WireSession → Prop
  | refl : Receives s [] s
  | step {contents : List Octets} {content? : Option Octets} {t u : WireSession} :
      Receives s contents t → Brings t content? u → Receives s (content?.toList ++ contents) u

variable {s t u : WireSession} {content? : Option Octets} {contents : List Octets} {label : Option Task}
  {log : List (Wire × Task)} {serverNameFails verifyHostFails : Bool} {reactions : List (Occasion × List WireOp)}
  {endpoint : Endpoint}

theorem exists_brings_iff : (∃ content?, Brings s content? t) ↔ ∃ label, Happens s label t := by
  constructor
  · rintro ⟨_, h⟩
    cases h with
    | asked task htask => exact ⟨_, .asked task htask⟩
    | ended h => exact ⟨_, .ended h⟩
    | finished hnotify h => exact ⟨_, .finished hnotify h⟩
    | polled hnotify htasks h => exact ⟨_, .polled hnotify htasks h⟩
  · rintro ⟨_, h⟩
    cases h with
    | asked task htask => exact ⟨_, .asked task htask⟩
    | ended h => exact ⟨_, .ended h⟩
    | finished hnotify h => exact ⟨_, .finished hnotify h⟩
    | polled hnotify htasks h => exact ⟨_, .polled hnotify htasks h⟩

/-- The runs of a connection are the same, whether what is handled is told or what is read. -/
theorem exists_receives_iff : (∃ contents, Receives s contents t) ↔ ∃ log, Leads s log t := by
  constructor
  · rintro ⟨_, h⟩
    induction h with
    | refl => exact ⟨_, .refl⟩
    | step _ hlast ih =>
      obtain ⟨log, hlog⟩ := ih
      obtain ⟨label, hhappens⟩ := exists_brings_iff.mp ⟨_, hlast⟩
      cases label with
      | none => exact ⟨_, hlog.silent hhappens⟩
      | some task => exact ⟨_, hlog.handled hhappens⟩
  · rintro ⟨_, h⟩
    induction h with
    | refl => exact ⟨_, .refl⟩
    | silent _ hlast ih =>
      obtain ⟨contents, hreceives⟩ := ih
      obtain ⟨content?, hbrings⟩ := exists_brings_iff.mpr ⟨_, hlast⟩
      exact ⟨_, hreceives.step hbrings⟩
    | handled _ hlast ih =>
      obtain ⟨contents, hreceives⟩ := ih
      obtain ⟨content?, hbrings⟩ := exists_brings_iff.mpr ⟨_, hlast⟩
      exact ⟨_, hreceives.step hbrings⟩

theorem Brings.outline (hs : s.wires.Single) (h : Brings s content? t) :
    t.wires.Single ∧ s.outline.Brings content? t.outline := by
  obtain ⟨label, hhappens⟩ := exists_brings_iff.mp ⟨_, h⟩
  obtain ⟨hsingle, -⟩ := hhappens.moves hs
  refine ⟨hsingle, ?_⟩
  cases h with
  | asked task htask => exact outline_asked htask ▸ .still
  | @ended notify operation error data t h =>
    obtain ⟨hlost, hcomes⟩ := comes_ended hs h
    exact hcomes.outline ▸ .ended error data hlost
  | @finished notify operation error data t hnotify h =>
    obtain ⟨hlost, hcomes⟩ := comes_finished hs hnotify h
    exact hcomes.outline ▸ .finished error data hlost
  | @polled notify task rest t hnotify htasks h =>
    obtain ⟨htask, hended, hcomes⟩ := comes_polled hs hnotify htasks h
    rw [hcomes.outline]
    cases task with
    | finish w operation error => exact .handled hended
    | send w frame => exact outline_popped hended ▸ .asked htask
    | close w => exact outline_popped hended ▸ .asked htask

theorem Receives.inbound (h : Receives s contents t)
    (hs : Begins serverNameFails verifyHostFails reactions endpoint s) :
    t.wires.Single ∧ Outline.Inbound contents t.outline := by
  induction h with
  | refl =>
    obtain ⟨hsingle, -, earlier, hearlier, houtline⟩ := hs.outline_eq
    exact ⟨hsingle, houtline ▸ Outline.inbound_dialed _ _ _ hearlier⟩
  | step _ hlast ih =>
    obtain ⟨hsingle, hbrings⟩ := hlast.outline ih.1
    exact ⟨hsingle, ih.2.step hbrings⟩

/-- Whatever has happened to a connection that was told to connect once, in whatever order and whatever was asked of it
before: the messages delivered are those that have been read, each alone and once, in the order of reading, but for the
ones whose ends are still to be handled. At most one read is outstanding, and from the report of the opening until that
of the close there is one. None is started once the close has been reported, and nothing is delivered before the opening
has been. -/
theorem messages_arrive_in_order (hs : Begins serverNameFails verifyHostFails reactions endpoint s)
    (h : Receives s contents t) :
    (∃ waiting, contents = waiting ++ messages t.journal ∧
      waiting.length = (t.wires.tasks.filterMap Task.ended?).count (.read, none)) ∧
    t.outstanding.count .read ≤ 1 ∧
    (.opened ∈ reports t.journal → .closed ∉ reports t.journal → .read ∈ t.outstanding) ∧
    (∀ later earlier, t.journal = later ++ .call .read :: earlier → .closed ∉ reports earlier) ∧
    ∀ payload later earlier, t.journal = later ++ .message payload :: earlier → .opened ∈ reports earlier := by
  obtain ⟨-, hphased, htold, hintime, waiting, hreads, hcontents⟩ := h.inbound hs
  have hintime : InTime t.journal := hintime
  refine ⟨⟨waiting, hcontents, hreads.length_eq⟩, hreads.count_le, fun hopened hclosed => ?_,
    fun later earlier he => ?_, fun payload later earlier he => ?_⟩
  · have hlive : t.outline.wire.closed = false := Bool.eq_false_iff.mpr (mt htold.mem_closed_iff.mpr hclosed)
    rw [hlive] at htold
    cases hopen : t.outline.wire.isOpen with
    | false =>
      rw [hopen] at htold
      exact absurd hopened (htold.eq_nil ▸ List.not_mem_nil)
    | true => exact hphased.read_mem hopen
  · have hread : (Entry.call .read).InTime earlier := InTime.at (he ▸ hintime)
    exact fun hclosed => hread.2 ((mem_status_iff false).mpr hclosed)
  · have hmessage : (Entry.message payload).InTime earlier := InTime.at (he ▸ hintime)
    exact (mem_status_iff true).mp hmessage

/-- An open connection has received two messages while a frame was on its way, and is to be closed after it. -/
def receivedSession : WireSession :=
  played [.complete .resolve none [] false, .complete .connect none [] false, .complete .handshake none [] false,
    .send (octets "X"), .poll, .complete .read none (octets "A") false, .complete .read none (octets "B") true, .close,
    .poll]

theorem receivedSession_in_order : Receives plain [octets "B", octets "A"] receivedSession ∧
    messages receivedSession.journal = [octets "B", octets "A"] ∧ .read ∈ receivedSession.outstanding := by
  obtain ⟨contents, h⟩ : ∃ contents, Receives plain contents receivedSession :=
    exists_receives_iff.mpr (leads_played (by simp [WireOp.IsTraffic]))
  obtain ⟨⟨waiting, rfl, hlength⟩, -, hread, -⟩ := messages_arrive_in_order begins_dialed h
  have hmessages : messages receivedSession.journal = [octets "B", octets "A"] := by decide +kernel
  have hnone : (receivedSession.wires.tasks.filterMap Task.ended?).count (.read, none) = 0 := by decide +kernel
  obtain rfl : waiting = [] := List.length_eq_zero_iff.mp (hlength.trans hnone)
  rw [hmessages] at h
  exact ⟨h, hmessages, hread (by decide +kernel) (by decide +kernel)⟩

end WireSession

end QuoteFeed
