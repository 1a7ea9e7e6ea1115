import QuoteFeed.Proofs.Phases

/-!
What a connection reports: that it is open and that it is closed once each, and an error only as the reason
for the close that follows.
-/

namespace QuoteFeed

def Entry.report? : Entry → Option Report
  | status true => some .opened
  | status false => some .closed
  | error text => some (.error text)
  | message payload => some (.frame payload)
  | _ => none

/-- The reports in a journal, the last one first. -/
def reports (journal : List Entry) : List Report := journal.filterMap Entry.report?

def Report.isError : Report → Bool
  | error _ => true
  | opened | closed | frame _ => false

/-- What can have been reported, the last first, of a connection that is open or not and closed or not. -/
inductive Told : (isOpen closed : Bool) → List Report → Prop
  | nothing : Told false false []
  | opened : Told true false [.opened]
  | frame {isOpen closed : Bool} {rs : List Report} (payload : Octets) :
      Told isOpen closed rs → (isOpen || closed) = true → Told isOpen closed (.frame payload :: rs)
  | closed {isOpen : Bool} {rs : List Report} : Told isOpen false rs → Told false true (.closed :: rs)
  | failed {isOpen : Bool} {rs : List Report} (text : Octets) :
      Told isOpen false rs → Told false true (.closed :: .error text :: rs)

namespace Told

variable {isOpen closed : Bool} {rs later earlier : List Report} {r : Report}

theorem eq_nil (h : Told false false rs) : rs = [] := by
  cases h with
  | nothing => rfl
  | frame _ _ hlive => cases hlive

/-- Before its close, a connection has reported nothing but its opening and frames. -/
theorem plain (h : Told isOpen false rs) (hr : r ∈ rs) : r = .opened ∨ ∃ payload, r = .frame payload := by
  generalize hc : false = closed at h
  induction h with
  | nothing => cases hr
  | opened => exact .inl (List.mem_singleton.mp hr)
  | frame payload _ _ ih =>
    rcases List.mem_cons.mp hr with rfl | hr
    · exact .inr ⟨payload, rfl⟩
    · exact ih hr hc
  | closed => cases hc
  | failed => cases hc

theorem ne_append (h : Told isOpen false rs) (hr : r = .closed ∨ r.isError = true) : rs ≠ later ++ r :: earlier := by
  rintro rfl
  rcases h.plain (List.mem_append_right _ List.mem_cons_self) with rfl | ⟨payload, rfl⟩ <;>
    simp [Report.isError] at hr

theorem count_opened_le (h : Told isOpen closed rs) : rs.count .opened ≤ 1 := by
  induction h with
  | nothing => exact Nat.zero_le _
  | opened => exact Nat.le_refl _
  | frame _ _ _ ih => rwa [List.count_cons_of_ne Report.noConfusion]
  | closed _ ih => rwa [List.count_cons_of_ne Report.noConfusion]
  | failed _ _ ih => rwa [List.count_cons_of_ne Report.noConfusion, List.count_cons_of_ne Report.noConfusion]

theorem count_closed (h : Told isOpen closed rs) : rs.count .closed = if closed then 1 else 0 := by
  induction h with
  | nothing => rfl
  | opened => rfl
  | frame _ _ _ ih => rwa [List.count_cons_of_ne Report.noConfusion]
  | closed _ ih =>
    rw [List.count_cons_self, ih]
    rfl
  | failed _ _ ih =>
    rw [List.count_cons_self, List.count_cons_of_ne Report.noConfusion, ih]
    rfl

theorem mem_closed_iff (h : Told isOpen closed rs) : .closed ∈ rs ↔ closed = true := by
  rw [← List.count_pos_iff, h.count_closed]
  cases closed <;> simp

theorem countP_isError (h : Told isOpen false rs) : rs.countP Report.isError = 0 := by
  refine List.countP_eq_zero.mpr fun r hr => ?_
  rcases h.plain hr with rfl | ⟨payload, rfl⟩ <;> exact Bool.noConfusion

theorem countP_isError_le (h : Told isOpen closed rs) : rs.countP Report.isError ≤ 1 := by
  induction h with
  | nothing => exact Nat.zero_le _
  | opened => exact Nat.zero_le _
  | frame _ _ _ ih => exact ih
  | closed h _ => exact h.countP_isError ▸ Nat.zero_le 1
  | @failed _ rs text h _ =>
    have hcons : (Report.error text :: rs).countP Report.isError = rs.countP Report.isError + 1 :=
      List.countP_cons_of_pos rfl
    exact Nat.le_of_eq (hcons.trans (congrArg (· + 1) h.countP_isError))

/-- After its close, a connection reports nothing but frames. -/
theorem frame_of_later (h : Told isOpen closed rs) (hrs : rs = later ++ .closed :: earlier) (hr : r ∈ later) :
    ∃ payload, r = .frame payload := by
  induction h generalizing later with
  | nothing => exact (Told.nothing.ne_append (.inl rfl) hrs).elim
  | opened => exact (Told.opened.ne_append (.inl rfl) hrs).elim
  | frame payload _ _ ih =>
    obtain ⟨-, he⟩ | ⟨rest, rfl, he⟩ := List.cons_eq_append_iff.mp hrs
    · cases he
    · rcases List.mem_cons.mp hr with rfl | hr
      · exact ⟨payload, rfl⟩
      · exact ih he hr
  | closed h _ =>
    obtain ⟨rfl, -⟩ | ⟨rest, -, he⟩ := List.cons_eq_append_iff.mp hrs
    · cases hr
    · exact (h.ne_append (.inl rfl) he).elim
  | failed text h _ =>
    obtain ⟨rfl, -⟩ | ⟨rest, -, he⟩ := List.cons_eq_append_iff.mp hrs
    · cases hr
    · obtain ⟨-, he⟩ | ⟨rest, -, he⟩ := List.cons_eq_append_iff.mp he
      · cases he
      · exact (h.ne_append (.inl rfl) he).elim

/-- After an error, the first thing that a connection reports is its close. -/
theorem closed_after_error (h : Told isOpen closed rs) {text : Octets} (hrs : rs = later ++ .error text :: earlier) :
    later.getLast? = some .closed := by
  induction h generalizing later with
  | nothing => exact (Told.nothing.ne_append (.inr rfl) hrs).elim
  | opened => exact (Told.opened.ne_append (.inr rfl) hrs).elim
  | frame payload _ _ ih =>
    obtain ⟨-, he⟩ | ⟨rest, rfl, he⟩ := List.cons_eq_append_iff.mp hrs
    · cases he
    · rw [List.getLast?_cons, ih he]
      rfl
  | closed h _ =>
    obtain ⟨-, he⟩ | ⟨rest, -, he⟩ := List.cons_eq_append_iff.mp hrs
    · cases he
    · exact (h.ne_append (.inr rfl) he).elim
  | failed other h _ =>
    obtain ⟨-, he⟩ | ⟨rest, rfl, he⟩ := List.cons_eq_append_iff.mp hrs
    · cases he
    · obtain ⟨rfl, -⟩ | ⟨rest, -, he⟩ := List.cons_eq_append_iff.mp he
      · rfl
      · exact (h.ne_append (.inr rfl) he).elim

end Told

namespace Outline

variable {k j l : Outline}

/-- Nothing is reported. -/
structure Mute (k j : Outline) : Prop where
  reports : reports j.journal = reports k.journal
  isOpen : j.wire.isOpen = k.wire.isOpen
  closed : j.wire.closed = k.wire.closed
  closing : k.wire.closing = true → j.wire.closing = true

/-- What a connection reports when one thing happens to it. -/
inductive Utters (k j : Outline) : Prop
  | mute : Mute k j → Utters k j
  | opened : k.wire.closing = false → k.wire.closed = false → k.wire.isOpen = false → j.wire.closed = false →
      j.wire.isOpen = true → reports j.journal = .opened :: reports k.journal → Utters k j
  | frame (payload : Octets) : (k.wire.isOpen || k.wire.closed) = true → j.wire.isOpen = k.wire.isOpen →
      j.wire.closed = k.wire.closed → (k.wire.closing = true → j.wire.closing = true) →
      reports j.journal = .frame payload :: reports k.journal → Utters k j
  | closed : k.wire.closed = false → j.wire.closed = true → j.wire.isOpen = false →
      (k.wire.closing = true → j.wire.closing = true) → reports j.journal = .closed :: reports k.journal → Utters k j
  | failed (text : Octets) : k.wire.closing = false → k.wire.closed = false → j.wire.closed = true →
      j.wire.isOpen = false → reports j.journal = .closed :: .error text :: reports k.journal → Utters k j

theorem Mute.trans (h : Mute k j) (h' : Mute j l) : Mute k l where
  reports := h'.reports.trans h.reports
  isOpen := h'.isOpen.trans h.isOpen
  closed := h'.closed.trans h.closed
  closing hk := h'.closing (h.closing hk)

/-- What is done before without a report does not matter. -/
theorem Mute.utters (h : Mute k j) (h' : Utters j l) : Utters k l := by
  have hclosing : j.wire.closing = false → k.wire.closing = false := by
    intro hj
    cases hk : k.wire.closing with
    | false => rfl
    | true => exact (h.closing hk).symm.trans hj
  cases h' with
  | mute hm => exact .mute (h.trans hm)
  | opened hj hclosed hopen hl hlopen hreports =>
    exact .opened (hclosing hj) (h.closed ▸ hclosed) (h.isOpen ▸ hopen) hl hlopen (h.reports ▸ hreports)
  | frame payload hlive hopen hclosed hl hreports =>
    exact .frame payload (by rw [← h.isOpen, ← h.closed, hlive]) (hopen.trans h.isOpen) (hclosed.trans h.closed)
      (fun hk => hl (h.closing hk)) (h.reports ▸ hreports)
  | closed hclosed hl hlopen hlclosing hreports =>
    exact .closed (h.closed ▸ hclosed) hl hlopen (fun hk => hlclosing (h.closing hk)) (h.reports ▸ hreports)
  | failed text hj hclosed hl hlopen hreports =>
    exact .failed text (hclosing hj) (h.closed ▸ hclosed) hl hlopen (h.reports ▸ hreports)

theorem mute_call (c : Call) : Mute k (k.note (.call c)) := ⟨rfl, rfl, rfl, id⟩

theorem mute_startWrite : Mute k k.startWrite := by
  unfold startWrite
  split
  next => exact ⟨rfl, rfl, rfl, id⟩
  next => exact ⟨rfl, rfl, rfl, id⟩

theorem mute_send (frame : Octets) : Mute k (k.send frame) := by
  have hqueued : Mute k (k.alter fun x => { x with queue := x.queue ++ [frame] }) := ⟨rfl, rfl, rfl, id⟩
  unfold send
  split
  next =>
    dsimp only
    split
    next => exact hqueued.trans mute_startWrite
    next => exact hqueued
  next => exact ⟨rfl, rfl, rfl, id⟩

theorem mute_close : Mute k k.close := by
  unfold close shut
  split
  next =>
    dsimp only
    split
    next => exact ⟨rfl, rfl, rfl, fun _ => rfl⟩
    next =>
      split
      next => exact ⟨rfl, rfl, rfl, fun _ => rfl⟩
      next => exact ⟨rfl, rfl, rfl, fun _ => rfl⟩
  next => exact ⟨rfl, rfl, rfl, id⟩

theorem utters_reportClosed : Utters k k.reportClosed := by
  unfold reportClosed
  split
  next hclosed => exact .closed (by simpa using hclosed) rfl rfl id rfl
  next => exact .mute ⟨rfl, rfl, rfl, id⟩

theorem utters_fail (what error : Octets) : Utters k (k.fail what error) := by
  unfold fail
  split
  next hclosed =>
    split
    next herror =>
      have hclosing : k.wire.closing = false := by simpa using herror.2
      have hclosed : k.wire.closed = false := by simpa using hclosed
      rw [reportClosed, if_pos (by simpa using hclosed)]
      exact .failed _ hclosing hclosed rfl rfl rfl
    next => exact utters_reportClosed
  next => exact .mute ⟨rfl, rfl, rfl, id⟩

theorem utters_afterConnect : Utters k k.afterConnect := by
  unfold afterConnect startTls
  split
  next =>
    dsimp only
    split
    next => exact (mute_call _).utters (utters_fail _ _)
    next =>
      split
      next => exact ((mute_call _).trans (mute_call _)).utters (utters_fail _ _)
      next => exact .mute ⟨rfl, rfl, rfl, id⟩
  next => exact .mute ⟨rfl, rfl, rfl, id⟩

variable {o : Operation}

theorem utters_afterHandshake (h : WirePhase k.wire (.handshake :: k.outstanding)) : Utters k k.afterHandshake := by
  obtain ⟨hclosed, hopen, -, -⟩ := h.of_dials rfl
  unfold afterHandshake
  split
  next => exact .mute ⟨rfl, rfl, rfl, id⟩
  next hclosing =>
    have hclosing : k.wire.closing = false := by simpa using hclosing
    dsimp only
    split
    next =>
      let opened : Outline := ((k.alter fun x => { x with isOpen := true }).note (.status true)).startRead
      have hwrite : Mute opened opened.startWrite := mute_startWrite
      exact .opened hclosing hclosed hopen (hwrite.closed.trans hclosed) hwrite.isOpen hwrite.reports
    next => exact .opened hclosing hclosed hopen hclosed rfl rfl

theorem utters_afterRead (h : WirePhase k.wire (.read :: k.outstanding)) : Utters k k.afterRead := by
  have hlive : (k.wire.isOpen || k.wire.closed) = true := by
    cases h with
    | dialing _ _ _ _ hdials ho =>
      rw [← (List.cons.inj ho).1] at hdials
      cases hdials
    | parting _ _ _ _ ho => cases (List.cons.inj ho).1
    | flowing _ hopen => rw [hopen, Bool.true_or]
    | gone hgone => rw [hgone, Bool.or_true]
  unfold afterRead
  split
  next => exact .frame k.wire.received hlive rfl rfl id rfl
  next => exact .frame k.wire.received hlive rfl rfl id rfl

theorem mute_afterWrite : Mute k k.afterWrite := by
  have hnext : Mute k (k.alter fun x => { x with queue := x.queue.drop 1 }) := ⟨rfl, rfl, rfl, id⟩
  unfold afterWrite
  dsimp only
  split
  next => exact ⟨rfl, rfl, rfl, id⟩
  next =>
    split
    next => exact hnext.trans mute_startWrite
    next => exact hnext

theorem mute_atEnd : Mute k (k.atEnd o) := by
  unfold atEnd
  split
  next => exact ⟨rfl, rfl, rfl, id⟩
  next => exact ⟨rfl, rfl, rfl, id⟩

theorem utters_finish (h : WirePhase k.wire (o :: k.outstanding)) (error : Option Octets) :
    Utters k (k.finish o error) := by
  cases error with
  | some e =>
    cases o with
    | close => exact utters_reportClosed
    | read =>
      show Utters k (if e = Operation.ended then _ else _)
      split
      next => exact utters_reportClosed
      next => exact utters_fail _ _
    | write => exact (mute_atEnd (o := .write)).utters (utters_fail _ _)
    | _ => exact utters_fail _ _
  | none =>
    cases o with
    | close => exact utters_reportClosed
    | resolve => exact .mute ⟨rfl, rfl, rfl, id⟩
    | connect => exact utters_afterConnect
    | tls => exact .mute ⟨rfl, rfl, rfl, id⟩
    | handshake => exact utters_afterHandshake h
    | read => exact utters_afterRead h
    | write => exact .mute ((mute_atEnd (o := .write)).trans mute_afterWrite)

/-- Whatever happens to a connection, it is one of these that it reports. -/
theorem Moves.utters {label : Option Task} (h : k.Moves label j) (hk : k.Phased) : Utters k j := by
  cases h with
  | still => exact .mute ⟨rfl, rfl, rfl, id⟩
  | ended => exact .mute ⟨rfl, rfl, rfl, id⟩
  | @asked task htask =>
    cases task with
    | finish => exact htask.elim
    | send w frame => exact .mute (mute_send frame)
    | close w => exact .mute mute_close
  | @finished operation error j hyields =>
    have hmute : Mute k j := by cases hyields <;> exact ⟨rfl, rfl, rfl, id⟩
    exact hmute.utters (utters_finish (hyields.phase hk) error)

theorem Utters.told (h : Utters k j) (hk : Told k.wire.isOpen k.wire.closed (reports k.journal)) :
    Told j.wire.isOpen j.wire.closed (reports j.journal) := by
  cases h with
  | mute hm => rw [hm.isOpen, hm.closed, hm.reports]; exact hk
  | opened _ hclosed hopen hj hjopen hreports =>
    rw [hclosed, hopen] at hk
    rw [hj, hjopen, hreports, hk.eq_nil]
    exact .opened
  | frame payload hlive hopen hclosed _ hreports =>
    rw [hopen, hclosed, hreports]
    exact hk.frame payload hlive
  | closed hclosed hj hjopen _ hreports =>
    rw [hj, hjopen, hreports]
    exact .closed (hclosed ▸ hk)
  | failed text _ hclosed hj hjopen hreports =>
    rw [hj, hjopen, hreports]
    exact .failed text (hclosed ▸ hk)

/-- Once it is to be closed, a connection reports no error. -/
theorem Utters.closing (h : Utters k j) (hk : k.wire.closing = true) :
    j.wire.closing = true ∧ (reports j.journal).countP Report.isError = (reports k.journal).countP Report.isError := by
  cases h with
  | mute hm => exact ⟨hm.closing hk, by rw [hm.reports]⟩
  | opened hclosing => exact Bool.noConfusion (hk.symm.trans hclosing)
  | frame payload _ _ _ hj hreports => exact ⟨hj hk, by rw [hreports]; rfl⟩
  | closed _ _ _ hj hreports => exact ⟨hj hk, by rw [hreports]; rfl⟩
  | failed text hclosing => exact Bool.noConfusion (hk.symm.trans hclosing)

theorem closed_reportClosed : k.reportClosed.wire.closed = true := by
  unfold reportClosed
  split
  next => rfl
  next hclosed => simpa using hclosed

theorem closed_fail (what error : Octets) : (k.fail what error).wire.closed = true := by
  unfold fail
  split
  next =>
    split
    next => exact closed_reportClosed
    next => exact closed_reportClosed
  next hclosed => simpa using hclosed

/-- An error ends a connection, and so does the end of its closing, whatever it is. -/
theorem closed_finish {error : Option Octets} (h : error ≠ none ∨ o = .close) :
    (k.finish o error).wire.closed = true := by
  cases error with
  | some e =>
    cases o with
    | close => exact closed_reportClosed
    | read =>
      show (if e = Operation.ended then k.reportClosed else k.fail _ _).wire.closed = true
      split
      next => exact closed_reportClosed
      next => exact closed_fail _ _
    | _ => exact closed_fail _ _
  | none =>
    cases o with
    | close => exact closed_reportClosed
    | _ => simp at h

end Outline

namespace WireSession

variable {s t : WireSession} {log : List (Wire × Task)} {serverNameFails verifyHostFails : Bool}
  {reactions : List (Occasion × List WireOp)} {endpoint : Endpoint}

theorem Leads.told (h : Leads (dialed serverNameFails verifyHostFails reactions endpoint) log t) :
    Told (t.wires.wire 0).isOpen (t.wires.wire 0).closed (reports t.journal) := by
  obtain ⟨-, -, htold⟩ := h.invariant (P := fun k => Told k.wire.isOpen k.wire.closed (reports k.journal)) single_dialed
    (Outline.phased_dialed _ _ _) .nothing fun hphased hk hm => (hm.utters hphased).told hk
  exact htold

/-- Once a connection is to be closed, it reports no error any more. -/
theorem Leads.errors_eq (h : Leads s log t) (hs : s.wires.Single) (hphased : s.outline.Phased)
    (hclosing : (s.wires.wire 0).closing = true) :
    (reports t.journal).countP Report.isError = (reports s.journal).countP Report.isError := by
  obtain ⟨-, -, -, herrors⟩ := h.invariant (P := fun k => k.wire.closing = true ∧
      (reports k.journal).countP Report.isError = (reports s.journal).countP Report.isError) hs hphased ⟨hclosing, rfl⟩
    fun hphased hk hm => by
      obtain ⟨hj, herrors⟩ := (hm.utters hphased).closing hk.1
      exact ⟨hj, herrors.trans hk.2⟩
  exact herrors

/-- Whatever has happened to a connection that was told to connect once, in whatever order: it has reported
that it is open at most once, that it is closed at most once, and nothing but frames after that; at most one
error, none once it was to be closed, and its close right after it. As long as it has not reported its close,
an operation is outstanding; and if one ends with an error, or if its closing ends, it has reported its close
when this has been handled. Everything that ends can be handled, if callbacks return. -/
theorem reports_orderly (h : Leads (dialed serverNameFails verifyHostFails reactions endpoint) log t) :
    (reports t.journal).count .opened ≤ 1 ∧ (reports t.journal).count .closed ≤ 1 ∧
    (reports t.journal).countP Report.isError ≤ 1 ∧
    (∀ later earlier, reports t.journal = later ++ .closed :: earlier → ∀ r ∈ later, ∃ payload, r = .frame payload) ∧
    (∀ text later earlier, reports t.journal = later ++ .error text :: earlier → later.getLast? = some .closed) ∧
    ((t.wires.wire 0).closing = true → ∀ more u, Leads t more u →
      (reports u.journal).countP Report.isError = (reports t.journal).countP Report.isError) ∧
    (.closed ∉ reports t.journal → t.outstanding ≠ []) ∧
    (∀ operation error u, error ≠ none ∨ operation = .close → Happens t (some (.finish 0 operation error)) u →
      .closed ∈ reports u.journal) ∧
    ∀ notify, Courteous t.reactions notify →
      (∀ operation ∈ t.wires.pending.map Pending.operation, ∀ error data late,
        (Exchange.complete notify operation error data late).Gives t fun found _ => found = true) ∧
      ∀ task rest, t.wires.tasks = task :: rest →
        (Exchange.perform notify task).Gives { t with wires := { t.wires with tasks := rest } } fun _ _ => True := by
  obtain ⟨hsingle, hphased⟩ := h.phased
  have htold : Told (t.wires.wire 0).isOpen (t.wires.wire 0).closed (reports t.journal) := h.told
  refine ⟨htold.count_opened_le, ?_, htold.countP_isError_le, fun _ _ he _ hr => htold.frame_of_later he hr,
    fun _ _ _ he => htold.closed_after_error he, fun hclosing _ _ hmore => hmore.errors_eq hsingle hphased hclosing,
    fun hno => ?_, fun operation error u hends hu => ?_, fun notify hnotify => gives_handled hsingle hnotify⟩
  · rw [htold.count_closed]
    split
    next => exact Nat.le_refl _
    next => exact Nat.zero_le _
  · refine WirePhase.ne_nil hphased ?_
    cases hclosed : (t.wires.wire 0).closed with
    | true => exact absurd (htold.mem_closed_iff.mpr hclosed) hno
    | false => exact hclosed
  · have hu' : Leads (dialed serverNameFails verifyHostFails reactions endpoint) _ u := h.handled hu
    obtain ⟨-, hmoves, -⟩ := hu.moves hsingle
    refine hu'.told.mem_closed_iff.mpr ?_
    generalize hk : t.outline = k at hmoves
    generalize hj : u.outline = j at hmoves
    have hclosed : j.wire.closed = true := by
      cases hmoves with
      | asked htask => exact htask.elim
      | finished => exact Outline.closed_finish hends
    exact congrArg (fun k : Outline => k.wire.closed) hj ▸ hclosed

/-- An open connection has lost the other side, while a frame was on its way. -/
def lostSession : WireSession :=
  played [.complete .resolve none [] false, .complete .connect none [] false, .complete .handshake none [] false,
    .send (octets "A"), .poll, .complete .read (some (octets "lost")) [] false, .poll]

theorem lostSession_orderly :
    reports lostSession.journal = [.closed, .error (octets "read: lost"), .opened] ∧
      (reports lostSession.journal).countP Report.isError ≤ 1 := by
  obtain ⟨log, h⟩ : ∃ log, Leads plain log lostSession := leads_played (by simp [WireOp.IsTraffic])
  exact ⟨by decide +kernel, (reports_orderly h).2.2.1⟩

end WireSession

end QuoteFeed
