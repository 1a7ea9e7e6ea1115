import QuoteFeed.Proofs.Beginnings
import QuoteFeed.Proofs.Reporting

/-!
The dial of a connection. Its operations follow one another, each of them started as the success of the one before it
is handled, and none of them twice. The stream is secured for a name before it is used, and nothing is read, written or
told over it before the last operation of the dial has succeeded.
-/

namespace QuoteFeed

/-- What an entry belongs to: the dial, the names that the stream is secured for, the flow of frames after the dial,
or none of these. -/
inductive Role where
  | dial
  | naming
  | flow
  | aside
deriving DecidableEq

def Call.role : Call → Role
  | serverName _ | verifyHost _ => .naming
  | read | write _ | close => .flow
  | resolverCancel | cancel | socketClose => .aside
  | _ => .dial

def Entry.role : Entry → Role
  | call c => c.role
  | status true | message _ => .flow
  | _ => .aside

/-- The operation that a call starts. -/
def Call.starts? : Call → Option Operation
  | resolve .. => some .resolve
  | connect => some .connect
  | tlsHandshake => some .tls
  | handshake .. => some .handshake
  | read => some .read
  | write _ => some .write
  | close => some .close
  | _ => none

def Entry.starts? : Entry → Option Operation
  | call c => c.starts?
  | _ => none

/-- The operations that have been started, the last one first. -/
def started (journal : List Entry) : List Operation := journal.filterMap Entry.starts?

/-- The operations of the dial that have been started, the last one first. -/
def dialStarts (journal : List Entry) : List Operation := (started journal).filter Operation.dials

/-- The operation that the success of another one leads to, with encryption or without. -/
def Operation.next? (encrypted : Bool) : Operation → Option Operation
  | resolve => some .connect
  | connect => some (if encrypted then .tls else .handshake)
  | tls => some .handshake
  | handshake | read | write | close => none

/-- The operations that come after one of the dial. -/
def Operation.onward (encrypted : Bool) : Operation → List Operation
  | resolve => if encrypted then [.connect, .tls, .handshake] else [.connect, .handshake]
  | connect => if encrypted then [.tls, .handshake] else [.handshake]
  | tls => [.handshake]
  | handshake | read | write | close => []

/-- The whole dial. -/
def dialSequence (encrypted : Bool) : List Operation :=
  if encrypted then [.resolve, .connect, .tls, .handshake] else [.resolve, .connect, .handshake]

/-- Operations of a dial that has come so far, the last one first. -/
inductive Dial (encrypted : Bool) : List Operation → Prop
  | resolve : Dial encrypted [.resolve]
  | next {o p : Operation} {earlier : List Operation} :
      Dial encrypted (o :: earlier) → o.next? encrypted = some p → Dial encrypted (p :: o :: earlier)

/-- The operation of the dial whose success is handled. -/
def Task.succeeds? : Task → Option Operation
  | finish _ o none => if o.dials then some o else none
  | finish .. | send .. | close _ => none

/-- The operations of the dial whose success has been handled, the last one first. -/
def succeeded (log : List (Wire × Task)) : List Operation := log.filterMap fun p => p.2.succeeds?

section

variable {encrypted : Bool} {o p : Operation} {ops : List Operation} {es journal : List Entry} {log : List (Wire × Task)}

theorem Operation.onward_of_next? (h : o.next? encrypted = some p) : o.onward encrypted = p :: p.onward encrypted := by
  cases o <;> cases encrypted <;> cases h <;> rfl

theorem Operation.dials_of_next? (h : o.next? encrypted = some p) : o.dials = true ∧ p.dials = true := by
  cases o <;> cases encrypted <;> cases h <;> exact ⟨rfl, rfl⟩

/-- What has been dialed and what is still to be dialed make up the whole dial. -/
theorem Dial.reverse_append (h : Dial encrypted ops) :
    ∃ o earlier, ops = o :: earlier ∧ ops.reverse ++ o.onward encrypted = dialSequence encrypted := by
  induction h with
  | resolve => exact ⟨.resolve, [], rfl, by cases encrypted <;> rfl⟩
  | @next o p earlier _ hnext ih =>
    obtain ⟨_, _, he, hwhole⟩ := ih
    obtain ⟨rfl, rfl⟩ := List.cons.inj he
    refine ⟨p, o :: earlier, rfl, ?_⟩
    rw [List.reverse_cons, List.append_assoc, List.singleton_append, ← Operation.onward_of_next? hnext]
    exact hwhole

theorem Dial.isPrefix (h : Dial encrypted ops) : ops.reverse <+: dialSequence encrypted := by
  obtain ⟨o, _, _, hwhole⟩ := h.reverse_append
  exact ⟨o.onward encrypted, hwhole⟩

/-- With encryption, the stream is secured before hands are shaken over it. -/
theorem Dial.tls_mem (h : Dial true ops) (hmem : .handshake ∈ ops) : .tls ∈ ops := by
  induction h with
  | resolve => cases List.mem_singleton.mp hmem
  | @next o p earlier _ hnext ih =>
    rcases List.mem_cons.mp hmem with rfl | hmem
    · cases o <;> cases hnext
      exact List.mem_cons_of_mem _ List.mem_cons_self
    · exact List.mem_cons_of_mem _ (ih hmem)

theorem Dial.tls_eq (h : Dial encrypted ops) (hmem : .tls ∈ ops) : encrypted = true := by
  cases encrypted with
  | true => rfl
  | false =>
    have hin : .tls ∈ dialSequence false := h.isPrefix.subset (List.mem_reverse.mpr hmem)
    revert hin
    decide

theorem started_append (es journal : List Entry) : started (es ++ journal) = started es ++ started journal :=
  List.filterMap_append

theorem dialStarts_append (es journal : List Entry) :
    dialStarts (es ++ journal) = dialStarts es ++ dialStarts journal := by
  rw [dialStarts, started_append, List.filter_append]
  rfl

/-- Nothing but the dial starts its operations. -/
theorem dialStarts_eq_nil (h : ∀ e ∈ es, ∀ o, e.starts? = some o → o.dials = false) : dialStarts es = [] := by
  refine List.filter_eq_nil_iff.mpr fun o ho => ?_
  obtain ⟨e, he, hstarts⟩ := List.mem_filterMap.mp ho
  rw [h e he o hstarts]
  exact Bool.false_ne_true

theorem tls_mem_dialStarts_iff : .tls ∈ dialStarts journal ↔ .call .tlsHandshake ∈ journal := by
  constructor
  · intro h
    obtain ⟨e, he, hstarts⟩ := List.mem_filterMap.mp (List.mem_filter.mp h).1
    cases e with
    | call c =>
      cases c <;> cases hstarts
      exact he
    | _ => cases hstarts
  · exact fun h => List.mem_filter.mpr ⟨List.mem_filterMap.mpr ⟨_, h, rfl⟩, rfl⟩

theorem succeeded_cons (x : Wire) (task : Task) (log : List (Wire × Task)) :
    succeeded ((x, task) :: log) = task.succeeds?.toList ++ succeeded log :=
  List.filterMap_cons_eq_append _ _ _

end

/-- Where the stream has been secured, it was for a host: its name, its certificate and the check of it were settled
right before that, in this order. -/
def SecuredFor (host : Octets) (journal : List Entry) : Prop :=
  ∀ later earlier, journal = later ++ .call .tlsHandshake :: earlier →
    [.call .verifyPeer, .call (.verifyHost host), .call (.serverName host)] <+: earlier

section

variable {host : Octets} {e : Entry} {es journal : List Entry}

theorem SecuredFor.cons (h : SecuredFor host journal)
    (he : e = .call .tlsHandshake →
      [.call .verifyPeer, .call (.verifyHost host), .call (.serverName host)] <+: journal) :
    SecuredFor host (e :: journal) := by
  intro later earlier hsplit
  obtain ⟨-, hcons⟩ | ⟨rest, -, hrest⟩ := List.cons_eq_append_iff.mp hsplit
  · obtain ⟨hcall, rfl⟩ := List.cons.inj hcons
    exact he hcall.symm
  · exact h rest earlier hrest

theorem SecuredFor.append (h : SecuredFor host journal) (hes : .call .tlsHandshake ∉ es) :
    SecuredFor host (es ++ journal) := by
  induction es with
  | nil => exact h
  | cons e es ih =>
    refine (ih fun hmem => hes (List.mem_cons_of_mem _ hmem)).cons fun he => ?_
    exact absurd (he ▸ List.mem_cons_self) hes

end

/-- The call is made on behalf of an address. -/
def Call.AimsAt (endpoint : Endpoint) : Call → Prop
  | stream tls => tls = endpoint.tls
  | resolve host port => host = endpoint.host ∧ port = endpoint.port
  | handshake host target => host = endpoint.host ∧ target = endpoint.target
  | _ => True

/-- An entry does not belong to the dial, and to the names or to the flow of frames only on a condition. -/
def Entry.Besides (through refused : Prop) (e : Entry) : Prop :=
  match e.role with
  | .dial => False
  | .naming => refused
  | .flow => through
  | .aside => True

theorem Entry.Besides.mono {e : Entry} {through refused through' refused' : Prop} (h : e.Besides through refused)
    (hthrough : through → through') (hrefused : refused → refused') : e.Besides through' refused' := by
  unfold Entry.Besides at h ⊢
  cases hrole : e.role with
  | dial => simp [hrole] at h
  | naming =>
    simp only [hrole] at h ⊢
    exact hrefused h
  | flow =>
    simp only [hrole] at h ⊢
    exact hthrough h
  | aside => trivial

/-- What starts an operation has the role of it. -/
theorem Entry.role_eq {e : Entry} {o : Operation} (h : e.starts? = some o) :
    e.role = if o.dials then .dial else .flow := by
  cases e with
  | call c => cases c <;> cases h <;> rfl
  | _ => cases h

namespace Outline

variable {through refused : Prop} {k j l : Outline} {o : Operation}

/-- What a connection is settled for stays as it is. -/
structure Kept (k j : Outline) : Prop where
  endpoint : j.wire.endpoint = k.wire.endpoint
  serverName : j.serverNameFails = k.serverNameFails
  verifyHost : j.verifyHostFails = k.verifyHostFails

/-- What is done is besides the dial. What is outstanding after it was so before or has been started by it. -/
structure Adds (through refused : Prop) (k j : Outline) : Prop extends Kept k j where
  entries : ∃ es, j.journal = es ++ k.journal ∧ (∀ e ∈ es, e.Besides through refused) ∧
    ∀ o ∈ j.outstanding, o ∈ k.outstanding ∨ o ∈ started es

theorem Kept.trans (h : Kept k j) (h' : Kept j l) : Kept k l :=
  ⟨h'.endpoint.trans h.endpoint, h'.serverName.trans h.serverName, h'.verifyHost.trans h.verifyHost⟩

theorem Adds.trans (h : Adds through refused k j) (h' : Adds through refused j l) : Adds through refused k l := by
  obtain ⟨es, hes, hbesides, hstarted⟩ := h.entries
  obtain ⟨es', hes', hbesides', hstarted'⟩ := h'.entries
  refine ⟨h.toKept.trans h'.toKept, es' ++ es, ?_, ?_, fun o ho => ?_⟩
  · rw [hes', hes, List.append_assoc]
  · intro e he
    exact (List.mem_append.mp he).elim (hbesides' e) (hbesides e)
  · rw [started_append]
    rcases hstarted' o ho with ho | ho
    · exact (hstarted o ho).imp_right fun ho => List.mem_append_right _ ho
    · exact .inr (List.mem_append_left _ ho)

theorem Kept.adds (h : Kept k j) (hjournal : j.journal = k.journal) (hsub : ∀ o ∈ j.outstanding, o ∈ k.outstanding) :
    Adds through refused k j :=
  ⟨h, [], hjournal, fun _ he => absurd he List.not_mem_nil, fun o ho => .inl (hsub o ho)⟩

theorem Adds.refl : Adds through refused k k := Kept.adds ⟨rfl, rfl, rfl⟩ rfl fun _ ho => ho

theorem Adds.alter (h : Adds through refused k j) {f : Wire → Wire} (hf : ∀ x, (f x).endpoint = x.endpoint) :
    Adds through refused k (j.alter f) :=
  ⟨⟨(hf _).trans h.endpoint, h.serverName, h.verifyHost⟩, h.entries⟩

theorem Adds.note (h : Adds through refused k j) {e : Entry} (he : e.Besides through refused) :
    Adds through refused k (j.note e) :=
  h.trans ⟨⟨rfl, rfl, rfl⟩, [e], rfl, fun _ hmem => List.mem_singleton.mp hmem ▸ he, fun _ ho => .inl ho⟩

theorem Adds.start (h : Adds through refused k j) {c : Call} (hc : (Entry.call c).Besides through refused)
    (ho : c.starts? = some o) : Adds through refused k (j.start c o) := by
  refine h.trans ⟨⟨rfl, rfl, rfl⟩, [.call c], rfl, fun _ hmem => List.mem_singleton.mp hmem ▸ hc, fun p hp => ?_⟩
  rcases List.mem_cons.mp ((outstanding_start c o).mem_iff.mp hp) with rfl | hp
  · exact .inr (List.mem_filterMap.mpr ⟨.call c, List.mem_singleton_self _, ho⟩)
  · exact .inl hp

theorem Adds.abort (h : Adds through refused k j) (aborted : Operation → Bool) :
    Adds through refused k (j.abort aborted) :=
  h.trans (Kept.adds ⟨rfl, rfl, rfl⟩ rfl fun _ ho => (outstanding_abort aborted).mem_iff.mp ho)

theorem Adds.startRead (h : Adds through refused k j) (hthrough : through) : Adds through refused k j.startRead :=
  h.start hthrough rfl

theorem Adds.startWrite (h : Adds through refused k j) (hthrough : through) : Adds through refused k j.startWrite := by
  unfold Outline.startWrite
  split
  next => exact h
  next frame _ _ =>
    have hbegun : Adds through refused k (j.alter fun x => { x with writing := true }) := h.alter fun _ => rfl
    exact hbegun.start (c := .write frame) hthrough rfl

theorem Adds.startClose (h : Adds through refused k j) (hthrough : through) : Adds through refused k j.startClose :=
  h.start hthrough rfl

theorem Adds.reportClosed (h : Adds through refused k j) : Adds through refused k j.reportClosed := by
  unfold Outline.reportClosed
  split
  next =>
    have hclosed : Adds through refused k
        (j.alter fun x => { x with closed := true, isOpen := false, queue := [] }) := h.alter fun _ => rfl
    exact ((hclosed.note (e := .call .socketClose) trivial).abort _).note (e := .status false) trivial
  next => exact h

theorem Adds.fail (h : Adds through refused k j) (what error : Octets) : Adds through refused k (j.fail what error) := by
  unfold Outline.fail
  split
  next =>
    split
    next => exact (h.note (e := .error _) trivial).reportClosed
    next => exact h.reportClosed
  next => exact h

theorem adds_close (h : k.wire.isOpen = true → through) : Adds through refused k k.close := by
  unfold close giveUp shut
  split
  next =>
    have hclosing : Adds through refused k (k.alter fun x => { x with closing := true }) := Adds.refl.alter fun _ => rfl
    dsimp only
    split
    next =>
      exact ((((hclosing.note (e := .call .resolverCancel) trivial).abort _).note (e := .call .cancel) trivial).abort _)
    next hopen =>
      have hthrough : through := h (by simpa using hopen)
      have hcut : Adds through refused k ((k.alter fun x => { x with closing := true }).alter
          fun x => { x with queue := x.queue.take (if x.writing then 1 else 0) }) := hclosing.alter fun _ => rfl
      split
      next => exact hcut.startClose hthrough
      next => exact hcut
  next => exact .refl

theorem adds_send (h : k.wire.isOpen = true → through) (frame : Octets) : Adds through refused k (k.send frame) := by
  unfold send
  split
  next =>
    have hqueued : Adds through refused k (k.alter fun x => { x with queue := x.queue ++ [frame] }) :=
      Adds.refl.alter fun _ => rfl
    dsimp only
    split
    next hfree =>
      obtain ⟨hopen, -⟩ : k.wire.isOpen = true ∧ k.wire.writing = false := by simpa using hfree
      exact hqueued.startWrite (h hopen)
    next => exact hqueued
  next => exact .refl

theorem Adds.afterHandshake (h : Adds through refused k j) (hthrough : through) :
    Adds through refused k j.afterHandshake := by
  unfold Outline.afterHandshake
  split
  next => exact h.startClose hthrough
  next =>
    have hready : Adds through refused k (j.alter fun x => { x with isOpen := true }) := h.alter fun _ => rfl
    have hopened := (hready.note (e := .status true) hthrough).startRead hthrough
    dsimp only
    split
    next => exact hopened.startWrite hthrough
    next => exact hopened

theorem Adds.afterRead (h : Adds through refused k j) (hthrough : through) : Adds through refused k j.afterRead := by
  have hemptied : Adds through refused k (j.alter fun x => { x with received := [] }) := h.alter fun _ => rfl
  have htold := hemptied.note (e := .message j.wire.received) hthrough
  unfold Outline.afterRead
  dsimp only
  split
  next => exact htold.startRead hthrough
  next => exact htold

theorem Adds.afterWrite (h : Adds through refused k j) (hthrough : through) : Adds through refused k j.afterWrite := by
  have hnext : Adds through refused k (j.alter fun x => { x with queue := x.queue.drop 1 }) := h.alter fun _ => rfl
  unfold Outline.afterWrite
  dsimp only
  split
  next => exact hnext.startClose hthrough
  next =>
    split
    next => exact hnext.startWrite hthrough
    next => exact hnext

theorem Adds.atEnd (h : Adds through refused k j) (o : Operation) : Adds through refused k (j.atEnd o) := by
  unfold Outline.atEnd
  split
  next => exact h.alter fun _ => rfl
  next => exact h

/-- What is shown as an operation of the dial is started, its start first. -/
def overture (e : Endpoint) : Operation → List Entry
  | .connect => [.call .connect, .call (.expiresAfter 30000)]
  | .tls => [.call .tlsHandshake, .call .verifyPeer, .call (.verifyHost e.host.untilNul),
      .call (.serverName e.host.untilNul)]
  | .handshake => [.call (.handshake e.host e.target), .call .textFrames, .call .clientTimeouts, .call .expiresNever]
  | .resolve | .read | .write | .close => []

/-- The stream cannot be secured for its names, and the close is reported. -/
def Refused (k j : Outline) : Prop := (k.serverNameFails || k.verifyHostFails) = true ∧ .status false ∈ j.journal

/-- The dial is over as a task is to be handled: it is the success of the last operation, or others are outstanding. -/
def Through (k : Outline) (task : Task) : Prop :=
  task.succeeds? = some .handshake ∨ ∃ o ∈ k.outstanding, o.dials = false

/-- What the handling of a task does about the dial. -/
inductive Way (through : Prop) (k : Outline) (task : Task) (j : Outline) : Prop
  /-- The success of an operation leads to the next one, and to nothing else. -/
  | onward {o p : Operation} : task = .finish 0 o none → o.next? k.wire.endpoint.tls = some p →
      (p = .tls → k.serverNameFails = false ∧ k.verifyHostFails = false) →
      j.journal = overture k.wire.endpoint p ++ k.journal → j.outstanding = [p] → Way through k task j
  /-- Nothing is done about it. What is outstanding of it was so before, as nothing has ended. -/
  | besides {es : List Entry} : j.journal = es ++ k.journal → (∀ e ∈ es, e.Besides through (Refused k j)) →
      (∀ o ∈ j.outstanding, o.dials = true → task.IsAsked ∧ o ∈ k.outstanding) →
      (∀ o ∈ j.outstanding, o.dials = false → through) → Way through k task j

variable {task : Task}

theorem Adds.way (h : Adds through (Refused k j) k j) (hdials : ∀ o ∈ k.outstanding, o.dials = true → task.IsAsked)
    (hothers : ∀ o ∈ k.outstanding, o.dials = false → through) : Way through k task j := by
  obtain ⟨es, hes, hbesides, hstarted⟩ := h.entries
  have hflow : ∀ o ∈ started es, o.dials = false ∧ through := by
    intro o ho
    obtain ⟨e, he, hstarts⟩ := List.mem_filterMap.mp ho
    have hrole := Entry.role_eq hstarts
    have hallowed := hbesides e he
    cases hd : o.dials with
    | true => simp [Entry.Besides, hrole, hd] at hallowed
    | false => exact ⟨rfl, by simpa [Entry.Besides, hrole, hd] using hallowed⟩
  refine .besides hes hbesides (fun o ho hd => ?_) fun o ho hd => ?_
  · rcases hstarted o ho with ho | ho
    · exact ⟨hdials o ho hd, ho⟩
    · exact Bool.noConfusion (hd.symm.trans (hflow o ho).1)
  · rcases hstarted o ho with ho | ho
    · exact hothers o ho hd
    · exact (hflow o ho).2

/-- What is handled is the end of an operation of the dial, so that the next one is the only one outstanding. -/
theorem way_start (h : WirePhase k.wire (o :: k.outstanding)) {p : Operation} {c : Call} {es : List Entry}
    (hnext : o.next? k.wire.endpoint.tls = some p) (hes : overture k.wire.endpoint p = .call c :: es)
    (hsecure : p = .tls → k.serverNameFails = false ∧ k.verifyHostFails = false) :
    Kept k (({ k with journal := es ++ k.journal } : Outline).start c p) ∧
      Way through k (.finish 0 o none) (({ k with journal := es ++ k.journal } : Outline).start c p) := by
  obtain ⟨-, -, -, hnil⟩ := h.of_dials (Operation.dials_of_next? hnext).1
  refine ⟨⟨rfl, rfl, rfl⟩, .onward rfl hnext hsecure ?_ ?_⟩
  · rw [hes]
    rfl
  · exact List.perm_singleton.mp ((outstanding_start c p).trans (.of_eq (congrArg _ hnil)))

theorem status_mem_fail (hclosed : k.wire.closed = false) (what error : Octets) :
    .status false ∈ (k.fail what error).journal := by
  have hreport : ∀ l : Outline, l.wire.closed = false → .status false ∈ l.reportClosed.journal := by
    intro l hl
    rw [reportClosed, if_pos (by rw [hl]; rfl)]
    exact List.mem_cons_self
  rw [fail, if_pos (by rw [hclosed]; rfl)]
  split
  next => exact hreport _ hclosed
  next => exact hreport _ hclosed

theorem way_afterConnect (h : WirePhase k.wire (.connect :: k.outstanding)) :
    Kept k k.afterConnect ∧ Way through k (.finish 0 .connect none) k.afterConnect := by
  obtain ⟨hclosed, -, -, hnil⟩ := h.of_dials rfl
  have hnone : ∀ o, o ∉ k.outstanding := fun o ho => List.not_mem_nil (hnil ▸ ho)
  have hrefused : ∀ l what error, (k.serverNameFails || k.verifyHostFails) = true → l.wire.closed = false →
      (∀ refused : Prop, refused → Adds through refused k l) →
      Kept k (l.fail what error) ∧ Way through k (.finish 0 .connect none) (l.fail what error) := by
    intro l what error hfails hl hadds
    -- The names have been told before the failure, and the close is told by it: only the whole journal excuses them.
    have hadds := (hadds (Refused k (l.fail what error)) ⟨hfails, status_mem_fail hl what error⟩).fail what error
    exact ⟨hadds.toKept, hadds.way (fun o ho => absurd ho (hnone o)) fun o ho => absurd ho (hnone o)⟩
  unfold afterConnect startTls
  cases htls : k.wire.endpoint.tls with
  | false => exact way_start h (by rw [htls]; rfl) rfl Operation.noConfusion
  | true =>
    dsimp only [if_true]
    cases hname : k.serverNameFails with
    | true =>
      exact hrefused _ _ _ (by rw [hname]; rfl) hclosed fun _ hr => Adds.refl.note (e := .call (.serverName _)) hr
    | false =>
      cases hhost : k.verifyHostFails with
      | true =>
        refine hrefused _ _ _ (by rw [hhost, Bool.or_true]) hclosed fun _ hr => ?_
        exact (Adds.refl.note (e := .call (.serverName _)) hr).note (e := .call (.verifyHost _)) hr
      | false => exact way_start h (by rw [htls]; rfl) rfl fun _ => ⟨hname, hhost⟩

/-- Whatever ends, the dial goes on if it is one of its operations that has succeeded and the names can be settled. -/
theorem way_finish (h : WirePhase k.wire (o :: k.outstanding)) (error : Option Octets) :
    Kept k (k.finish o error) ∧
      Way (o = .handshake ∧ error = none ∨ o.dials = false) k (.finish 0 o error) (k.finish o error) := by
  -- An operation of the dial leaves nothing else outstanding, so that what is left shows that the dial was over before.
  have hadded : ∀ j, Adds (o = .handshake ∧ error = none ∨ o.dials = false) (Refused k j) k j →
      Kept k j ∧ Way (o = .handshake ∧ error = none ∨ o.dials = false) k (.finish 0 o error) j := by
    intro j hadds
    refine ⟨hadds.toKept, hadds.way (fun p hp hd => Bool.noConfusion (hd.symm.trans (h.dials_of_mem hp))) fun p hp _ => ?_⟩
    cases hd : o.dials with
    | true => exact absurd ((h.of_dials hd).2.2.2 ▸ hp) List.not_mem_nil
    | false => exact .inr rfl
  cases error with
  | some e =>
    cases o with
    | close => exact hadded _ Adds.refl.reportClosed
    | read =>
      show Kept k (if e = Operation.ended then _ else _) ∧ Way _ k _ (if e = Operation.ended then _ else _)
      split
      next => exact hadded _ Adds.refl.reportClosed
      next => exact hadded _ (Adds.refl.fail _ _)
    | write => exact hadded _ ((Adds.refl.atEnd .write).fail _ _)
    | _ => exact hadded _ (Adds.refl.fail _ _)
  | none =>
    cases o with
    | close => exact hadded _ Adds.refl.reportClosed
    | resolve => exact way_start h rfl rfl Operation.noConfusion
    | connect => exact way_afterConnect h
    | tls => exact way_start h rfl rfl Operation.noConfusion
    | handshake => exact hadded _ (Adds.refl.afterHandshake (.inl ⟨rfl, rfl⟩))
    | read => exact hadded _ (Adds.refl.afterRead (.inr rfl))
    | write => exact hadded _ ((Adds.refl.atEnd .write).afterWrite (.inr rfl))

theorem exists_outstanding_of_isOpen (h : k.Phased) (hopen : k.wire.isOpen = true) :
    ∃ o ∈ k.outstanding, o.dials = false := by
  cases h with
  | dialing _ _ hshut => exact Bool.noConfusion (hopen.symm.trans hshut)
  | parting _ hshut => exact Bool.noConfusion (hopen.symm.trans hshut)
  | flowing _ _ _ _ ho => exact ⟨.read, ho.mem_iff.mpr List.mem_cons_self, rfl⟩
  | gone _ hshut => exact Bool.noConfusion (hopen.symm.trans hshut)

/-- What is handled goes one of the two ways; and what succeeds in it was outstanding. -/
theorem Moves.way (h : k.Moves (some task) j) (hk : k.Phased) :
    Kept k j ∧ Way (k.Through task) k task j ∧ ∀ o, task.succeeds? = some o → o ∈ k.outstanding ∧ o.dials = true := by
  cases h with
  | asked htask =>
    have hadded : Adds (k.Through task) (Refused k (k.perform task)) k (k.perform task) := by
      have hopen : k.wire.isOpen = true → k.Through task := fun hopen => .inr (exists_outstanding_of_isOpen hk hopen)
      cases task with
      | finish => exact htask.elim
      | send w frame => exact adds_send hopen frame
      | close w => exact adds_close hopen
    refine ⟨hadded.toKept, hadded.way (fun _ _ _ => htask) fun o ho hd => .inr ⟨o, ho, hd⟩, fun o ho => ?_⟩
    cases task with
    | finish => exact htask.elim
    | send => cases ho
    | close => cases ho
  | @finished o error y hy =>
    have hphase : WirePhase y.wire (o :: y.outstanding) := hy.phase hk
    have hmem : o ∈ k.outstanding := hy.outstanding.mem_iff.mpr List.mem_cons_self
    have hsame : Kept k y ∧ y.journal = k.journal := by cases hy <;> exact ⟨⟨rfl, rfl, rfl⟩, rfl⟩
    obtain ⟨hkept, hway⟩ := way_finish hphase error
    refine ⟨hsame.1.trans hkept, ?_, fun p hp => ?_⟩
    · have hthrough : (o = .handshake ∧ error = none ∨ o.dials = false) → k.Through (.finish 0 o error) := by
        rintro (⟨rfl, rfl⟩ | hd)
        · exact .inl rfl
        · exact .inr ⟨o, hmem, hd⟩
      cases hway with
      | onward htask hnext hsecure hjournal houtstanding =>
        rw [hsame.1.endpoint] at hnext hjournal
        rw [hsame.1.serverName, hsame.1.verifyHost] at hsecure
        rw [hsame.2] at hjournal
        exact .onward htask hnext hsecure hjournal houtstanding
      | besides hjournal hbesides hdials hothers =>
        have hrefused : Refused y (y.finish o error) → Refused k (y.finish o error) := by
          rw [Refused, hsame.1.serverName, hsame.1.verifyHost]
          exact id
        exact .besides (hsame.2 ▸ hjournal) (fun e he => (hbesides e he).mono hthrough hrefused)
          (fun p hp hd => (hdials p hp hd).1.elim) fun p hp hd => hthrough (hothers p hp hd)
    · cases error with
      | some e => cases hp
      | none =>
        obtain ⟨hd, rfl⟩ : o.dials = true ∧ o = p := by simpa [Task.succeeds?] using hp
        exact ⟨hmem, hd⟩

end Outline

end QuoteFeed
