import QuoteFeed.Proofs.Reporting

/-!
Closing a connection before it is open. What is pending is given up, so that nothing is left to be handled but
an end of it; and this leads on to the next operation only if the operation had succeeded before it could be
given up.
-/

namespace QuoteFeed

/-- The call starts an operation that leads to an open connection. -/
def Entry.dials : Entry → Bool
  | call .connect | call .tlsHandshake | call (.handshake ..) => true
  | _ => false

/-- How many such operations have been started, not counting the search for the address. -/
def dials (journal : List Entry) : Nat := journal.countP Entry.dials

/-- The success of an operation leads to another one that leads to an open connection. -/
def Wires.leadsOn (ws : Wires) : Operation → Bool
  | .resolve | .tls => true
  | .connect => !(ws.wire 0).endpoint.tls || !(ws.serverNameFails || ws.verifyHostFails)
  | .handshake | .read | .write | .close => false

namespace Outline

variable {k j : Outline} {o : Operation}

def leadsOn (k : Outline) : Operation → Bool
  | .resolve | .tls => true
  | .connect => !k.wire.endpoint.tls || !(k.serverNameFails || k.verifyHostFails)
  | .handshake | .read | .write | .close => false

/-- A connection that is to be closed before it is open, while the only end that was to be handled is. -/
structure Winding (k : Outline) : Prop where
  closing : k.wire.closing = true
  isOpen : k.wire.isOpen = false
  closed : k.wire.closed = false
  silent : reports k.journal = []
  idle : k.outstanding = []

/-- It has come to its end. -/
structure Over (k j : Outline) : Prop where
  closing : j.wire.closing = true
  isOpen : j.wire.isOpen = false
  closed : j.wire.closed = true
  told : reports j.journal = [.closed]
  idle : j.outstanding = []
  count : dials j.journal = dials k.journal

/-- It has gone on to an operation. -/
structure Goes (k : Outline) (p : Operation) (j : Outline) : Prop where
  closing : j.wire.closing = true
  isOpen : j.wire.isOpen = false
  closed : j.wire.closed = false
  silent : reports j.journal = []
  next : j.outstanding = [p]
  count : dials j.journal = dials k.journal + if p.dials then 1 else 0

theorem Winding.call (h : k.Winding) (c : Call) : (k.note (.call c)).Winding :=
  ⟨h.closing, h.isOpen, h.closed, h.silent, h.idle⟩

theorem Winding.reportClosed (h : k.Winding) : Over k k.reportClosed := by
  rw [Outline.reportClosed, if_pos (by rw [h.closed]; rfl)]
  refine ⟨h.closing, rfl, rfl, congrArg _ h.silent, ?_, rfl⟩
  exact List.perm_nil.mp ((outstanding_abort _).trans (.of_eq h.idle))

theorem Winding.fail (h : k.Winding) (what error : Octets) : Over k (k.fail what error) := by
  rw [Outline.fail, if_pos (by rw [h.closed]; rfl), if_neg (by simp [h.closing])]
  exact h.reportClosed

theorem Winding.start (h : k.Winding) {c : Call} {p : Operation} (hc : (Entry.call c).dials = p.dials) :
    Goes k p (k.start c p) := by
  refine ⟨h.closing, h.isOpen, h.closed, h.silent, ?_, ?_⟩
  · exact List.perm_singleton.mp ((outstanding_start c p).trans (.of_eq (congrArg _ h.idle)))
  · rw [← hc]
    exact List.countP_cons

theorem Goes.of_dials_eq {l : Outline} {p : Operation} (h : Goes j p l) (hj : dials j.journal = dials k.journal) :
    Goes k p l :=
  ⟨h.closing, h.isOpen, h.closed, h.silent, h.next, hj ▸ h.count⟩

theorem Over.of_dials_eq {l : Outline} (h : Over j l) (hj : dials j.journal = dials k.journal) : Over k l :=
  ⟨h.closing, h.isOpen, h.closed, h.told, h.idle, hj ▸ h.count⟩

theorem Winding.startHandshake (h : k.Winding) : Goes k .handshake k.startHandshake :=
  (((h.call _).call _).call _).start rfl |>.of_dials_eq rfl

/-- To secure the stream is to go on, unless a setting cannot be made. -/
theorem Winding.startTls (h : k.Winding) : if k.serverNameFails || k.verifyHostFails then Over k k.startTls
    else Goes k .tls k.startTls := by
  unfold Outline.startTls
  dsimp only
  cases hname : k.serverNameFails with
  | true => exact ((h.call _).fail _ _).of_dials_eq rfl
  | false =>
    cases hhost : k.verifyHostFails with
    | true => exact (((h.call _).call _).fail _ _).of_dials_eq rfl
    | false => exact ((((h.call _).call _).call _).start rfl).of_dials_eq rfl

/-- What an end leads to that is handled when the connection is to be closed already. -/
theorem Winding.finish (h : k.Winding) (ho : o.dials = true ∨ o = .close) (error : Option Octets) :
    (error = none ∧ k.leadsOn o = true ∧ ∃ p, p.dials = true ∧ Goes k p (k.finish o error)) ∨
      (error = none → k.leadsOn o = false) ∧ (Over k (k.finish o error) ∨ Goes k .close (k.finish o error)) := by
  cases error with
  | some e =>
    refine .inr ⟨fun he => absurd he (Option.some_ne_none e), .inl ?_⟩
    cases o with
    | close => exact h.reportClosed
    | read => simp [Operation.dials] at ho
    | write => simp [Operation.dials] at ho
    | _ => exact h.fail _ _
  | none =>
    cases o with
    | close => exact .inr ⟨fun _ => rfl, .inl h.reportClosed⟩
    | resolve => exact .inl ⟨rfl, rfl, .connect, rfl, ((h.call _).start rfl).of_dials_eq rfl⟩
    | tls => exact .inl ⟨rfl, rfl, .handshake, rfl, h.startHandshake⟩
    | handshake =>
      refine .inr ⟨fun _ => rfl, .inr ?_⟩
      show Goes k .close k.afterHandshake
      rw [afterHandshake, if_pos h.closing]
      exact h.start rfl
    | connect =>
      show (_ ∧ _ ∧ ∃ p, _ ∧ Goes k p k.afterConnect) ∨ _ ∧ (Over k k.afterConnect ∨ _)
      unfold afterConnect
      cases htls : k.wire.endpoint.tls with
      | false => exact .inl ⟨rfl, by simp [leadsOn, htls], .handshake, rfl, h.startHandshake⟩
      | true =>
        have hstart := h.startTls
        cases hfails : k.serverNameFails || k.verifyHostFails with
        | true =>
          rw [hfails] at hstart
          exact .inr ⟨fun _ => by simp only [leadsOn, htls, hfails]; rfl, .inl hstart⟩
        | false =>
          rw [hfails] at hstart
          exact .inl ⟨rfl, by simp only [leadsOn, htls, hfails]; rfl, .tls, rfl, hstart⟩
    | read => simp [Operation.dials] at ho
    | write => simp [Operation.dials] at ho

/-- A connection that was to be closed before it was open. -/
structure Dismissed (k : Outline) : Prop where
  phased : k.Phased
  closing : k.wire.closing = true
  isOpen : k.wire.isOpen = false
  told : reports k.journal = if k.wire.closed then [.closed] else []
  left : k.wire.closed = true → k.outstanding = []

theorem Over.dismissed (h : Over k j) (hphased : j.Phased) : j.Dismissed :=
  ⟨hphased, h.closing, h.isOpen, by rw [h.closed]; exact h.told, fun _ => h.idle⟩

theorem Goes.dismissed {p : Operation} (h : Goes k p j) (hphased : j.Phased) : j.Dismissed :=
  ⟨hphased, h.closing, h.isOpen, by rw [h.closed]; exact h.silent, fun hj => Bool.noConfusion (h.closed.symm.trans hj)⟩

/-- To take an end that is to be handled leaves nothing. -/
theorem Dismissed.winding {error : Option Octets} (h : k.Dismissed) (hy : k.Yields o error j) :
    j.Winding ∧ (o.dials = true ∨ o = .close) := by
  have hp := hy.outstanding
  have hclosed : k.wire.closed = false := by
    cases hclosed : k.wire.closed with
    | false => rfl
    | true =>
      rw [h.left hclosed] at hp
      exact absurd (List.nil_perm.mp hp) (List.cons_ne_nil _ _)
  have htold := h.told
  rw [hclosed] at htold
  have hone : ∀ p : Operation, k.outstanding = [p] → o = p ∧ j.outstanding = [] := by
    intro p hk
    rw [hk] at hp
    exact List.cons.inj (List.singleton_perm.mp hp).symm
  have hwinding : j.outstanding = [] → j.Winding := by
    intro hidle
    cases hy with
    | pending => exact ⟨h.closing, h.isOpen, hclosed, htold, hidle⟩
    | ended => exact ⟨h.closing, h.isOpen, hclosed, htold, hidle⟩
  cases h.phased with
  | dialing p _ _ _ hdials hk =>
    obtain ⟨rfl, hidle⟩ := hone p hk
    exact ⟨hwinding hidle, .inl hdials⟩
  | parting _ _ _ _ hk =>
    obtain ⟨rfl, hidle⟩ := hone .close hk
    exact ⟨hwinding hidle, .inr rfl⟩
  | flowing _ hopen => exact Bool.noConfusion (h.isOpen.symm.trans hopen)
  | gone hgone => exact Bool.noConfusion (hclosed.symm.trans hgone)

/-- What a connection is asked for when it is to be closed it does not do. -/
theorem perform_of_closing (hclosing : k.wire.closing = true) {task : Task} (htask : task.IsAsked) :
    k.perform task = k := by
  have hgate : ¬(!k.wire.closed && !k.wire.closing) = true := by simp [hclosing]
  cases task with
  | finish => exact htask.elim
  | send w frame => exact if_neg hgate
  | close w => exact if_neg hgate

/-- Whatever happens then, nothing is reported but the close. -/
theorem Dismissed.moves {label : Option Task} (h : k.Dismissed) (hm : k.Moves label j) : j.Dismissed := by
  have hphased : j.Phased := hm.phased h.phased
  cases hm with
  | still => exact h
  | ended error received hmem =>
    refine ⟨hphased, h.closing, h.isOpen, h.told, fun hclosed => ?_⟩
    exact absurd (h.left hclosed) (List.ne_nil_of_mem (List.mem_append_left _ hmem))
  | asked htask =>
    rw [perform_of_closing h.closing htask]
    exact h
  | @finished operation error j hy =>
    obtain ⟨hwinding, ho⟩ := h.winding hy
    obtain ⟨-, -, p, -, hgoes⟩ | ⟨-, hgone | hgoes⟩ := hwinding.finish ho error
    · exact hgoes.dismissed hphased
    · exact hgone.dismissed hphased
    · exact hgoes.dismissed hphased

/-- Nothing of the dial is left: what is to be handled leads to no further operation of it. -/
structure Ebbing (k : Outline) : Prop extends Dismissed k where
  given : k.wire.closed = false → k.outstanding = [.close] ∨
    ∃ operation error, k.pending = [] ∧ k.ended = [(operation, error)] ∧ (error = none → k.leadsOn operation = false)

theorem Ebbing.moves {label : Option Task} (h : k.Ebbing) (hm : k.Moves label j) :
    j.Ebbing ∧ dials j.journal = dials k.journal := by
  have hdismissed : j.Dismissed := h.toDismissed.moves hm
  cases hm with
  | still => exact ⟨h, rfl⟩
  | ended error received hmem =>
    refine ⟨⟨hdismissed, fun hclosed => .inl ?_⟩, rfl⟩
    obtain hclose | ⟨_, _, hpending, -⟩ := h.given hclosed
    · exact List.perm_singleton.mp ((Moves.ended error received hmem).outstanding.symm.trans (.of_eq hclose))
    · rw [hpending] at hmem
      cases hmem
  | asked htask =>
    rw [perform_of_closing h.closing htask]
    exact ⟨h, rfl⟩
  | @finished operation error l hy =>
    obtain ⟨hwinding, ho⟩ := h.toDismissed.winding hy
    have hkeeps : l.leadsOn operation = k.leadsOn operation ∧ dials l.journal = dials k.journal ∧
        l.wire.closed = k.wire.closed := by
      cases hy <;> cases operation <;> exact ⟨rfl, rfl, rfl⟩
    have hstays : error = none → l.leadsOn operation = false := by
      rw [hkeeps.1]
      obtain hclose | ⟨_, _, hpending, hended, hno⟩ := h.given (hkeeps.2.2.symm.trans hwinding.closed)
      · have hp := hy.outstanding
        rw [hclose] at hp
        rw [(List.cons.inj (List.singleton_perm.mp hp)).1.symm]
        exact fun _ => rfl
      · cases hy with
        | pending received hmem =>
          rw [hpending] at hmem
          cases hmem
        | ended hk =>
          obtain ⟨rfl, rfl⟩ := Prod.mk.inj (List.cons.inj (hk.symm.trans hended)).1
          exact hno
    obtain ⟨he, hleads, -⟩ | ⟨-, hgone | hgoes⟩ := hwinding.finish ho error
    · exact Bool.noConfusion (hleads.symm.trans (hstays he))
    · refine ⟨⟨hdismissed, fun hclosed => ?_⟩, hgone.count.trans hkeeps.2.1⟩
      exact Bool.noConfusion (hgone.closed.symm.trans hclosed)
    · exact ⟨⟨hdismissed, fun _ => .inl hgoes.next⟩, hgoes.count.trans hkeeps.2.1⟩

/-- To close a connection that is not open yet is to give up what is pending. -/
theorem dismissed_close (h : k.Phased) (htold : reports k.journal = []) (hopen : k.wire.isOpen = false)
    (hclosing : k.wire.closing = false) (hclosed : k.wire.closed = false) :
    k.close.Dismissed ∧ k.close.wire.closed = false ∧ k.close.pending = [] ∧
      ∃ operation error, k.close.ended = [(operation, error)] := by
  have hclose : k.close = (k.alter fun x => { x with closing := true }).giveUp := by
    rw [close, if_pos (by rw [hclosed, hclosing]; rfl), if_pos (by rw [hopen]; rfl)]
  have hphased : k.close.Phased := h.close
  have hpending : k.close.pending = [] := by
    rw [hclose]
    refine List.filter_eq_nil_iff.mpr fun o ho => ?_
    have hne : o ≠ .resolve := by simpa using (List.mem_filter.mp ho).2
    simpa using hne
  have hwire : k.close.wire = { k.wire with closing := true } := congrArg Outline.wire hclose
  have hdismissed : k.close.Dismissed := by
    refine ⟨hphased, ?_, ?_, ?_, fun h => ?_⟩
    · rw [hwire]
    · rw [hwire]
      exact hopen
    · rw [hwire, hclosed, hclose]
      exact htold
    · rw [hwire] at h
      exact Bool.noConfusion (hclosed.symm.trans h)
  refine ⟨hdismissed, hwire ▸ hclosed, hpending, ?_⟩
  have hone : ∃ o, k.close.outstanding = [o] := by
    cases hphased with
    | dialing o _ _ _ _ ho => exact ⟨o, ho⟩
    | parting _ _ _ _ ho => exact ⟨.close, ho⟩
    | flowing _ hflowing => exact Bool.noConfusion (hdismissed.isOpen.symm.trans hflowing)
    | gone hgone => exact Bool.noConfusion (hclosed.symm.trans (hwire ▸ hgone))
  obtain ⟨o, ho⟩ := hone
  rw [outstanding, hpending, List.nil_append] at ho
  obtain ⟨⟨operation, error⟩, hended, -⟩ := List.map_eq_singleton_iff.mp ho
  exact ⟨operation, error, hended⟩

end Outline

namespace WireSession

variable {s t : WireSession} {log : List (Wire × Task)} {serverNameFails verifyHostFails : Bool}
  {reactions : List (Occasion × List WireOp)} {endpoint : Endpoint}

theorem gives_refused {notify : Nat → Report → Step WireSession Unit} (hclosing : (s.wires.wire 0).closing = true)
    {task : Task} (htask : task.IsAsked) : (Exchange.perform notify task).Gives s fun _ u => u = s := by
  have hgate : ¬(!(s.wires.wire 0).closed && !(s.wires.wire 0).closing) = true := by simp [hclosing]
  cases task with
  | finish => exact htask.elim
  | send w frame =>
    cases htask
    simp only [Exchange.perform, Exchange.send, Step.gives_bind, Comes.gives_wire, if_neg hgate, Step.gives_pure]
  | close w =>
    cases htask
    simp only [Exchange.perform, Exchange.close, Step.gives_bind, Comes.gives_wire, if_neg hgate, Step.gives_pure]

theorem leadsOn_outline (operation : Operation) : s.outline.leadsOn operation = s.wires.leadsOn operation := by
  cases operation <;> rfl

/-- A success that is to be handled and that leads on will lead on, as nothing before it is done. -/
theorem exists_dials {operation : Operation} {before after : List Task} (hs : t.wires.Single)
    (hdismissed : t.outline.Dismissed) (htasks : t.wires.tasks = before ++ .finish 0 operation none :: after)
    (hbefore : ∀ task ∈ before, task.ended? = none) (hleads : t.wires.leadsOn operation = true) :
    ∃ more u, Leads t more u ∧ dials u.journal = dials t.journal + 1 := by
  induction before generalizing t with
  | nil =>
    let popped : WireSession := { t with wires := { t.wires with tasks := after } }
    have hended : t.outline.ended = (operation, none) :: popped.outline.ended := by
      rw [outline, htasks]
      rfl
    obtain ⟨hwinding, ho⟩ := hdismissed.winding (.ended hended)
    obtain ⟨⟨⟩, u, hu, hcomes⟩ := (comes_self (s := popped) (hs.pop htasks)).finish courteous_quiet operation none
    refine ⟨_, u, Leads.refl.handled (.polled courteous_quiet htasks hu), ?_⟩
    have hjournal : u.journal = (popped.outline.finish operation none).journal :=
      congrArg Outline.journal hcomes.outline
    obtain ⟨-, -, p, hp, hgoes⟩ | ⟨hno, -⟩ := hwinding.finish ho none
    · rw [hjournal]
      refine hgoes.count.trans ?_
      rw [hp]
      rfl
    · exact Bool.noConfusion (hleads.symm.trans ((leadsOn_outline (s := popped) operation).symm.trans (hno rfl)))
  | cons task before ih =>
    let tasks : List Task := before ++ .finish 0 operation none :: after
    let popped : WireSession := { t with wires := { t.wires with tasks } }
    have hnone : task.ended? = none := hbefore task List.mem_cons_self
    have htask : task.IsAsked := by
      have hwire : task.wire = 0 := hs.tasks task (htasks ▸ List.mem_cons_self)
      cases task with
      | finish => cases hnone
      | send => exact hwire
      | close => exact hwire
    have hrefused : (Exchange.perform quiet task).Gives popped fun _ u => u = popped :=
      gives_refused (s := popped) hdismissed.closing htask
    obtain ⟨⟨⟩, u, hu, rfl⟩ := hrefused
    have hpopped : t.outline = popped.outline := by
      rw [outline, htasks, List.cons_append, List.filterMap_cons_none hnone]
      rfl
    obtain ⟨more, v, hmore, hdials⟩ := ih (t := popped) (hs.pop htasks) (hpopped ▸ hdismissed) rfl
      (fun other hother => hbefore other (List.mem_cons_of_mem _ hother)) (by cases operation <;> exact hleads)
    exact ⟨_, v, (Leads.refl.handled (.polled courteous_quiet htasks hu)).trans hmore, hdials⟩

/-- A connection that was told to connect once is closed before it is open. Whatever happens to it after that,
it reports nothing but its close. It dials on just in case the operation that was outstanding has succeeded
already, without an error to come, and leads on to another one; otherwise what was pending leads to the close
only. -/
theorem giving_up_iff (h : Leads (dialed serverNameFails verifyHostFails reactions endpoint) log s)
    (hopen : (s.wires.wire 0).isOpen = false) (hclosing : (s.wires.wire 0).closing = false)
    (hclosed : (s.wires.wire 0).closed = false) (hclose : Happens s (some (.close 0)) t) :
    (∀ more u, Leads t more u → reports u.journal = if (u.wires.wire 0).closed then [.closed] else []) ∧
    ((∀ more u, Leads t more u → dials u.journal = dials t.journal) ↔
      ∀ operation, .finish 0 operation none ∈ t.wires.tasks → t.wires.leadsOn operation = false) := by
  obtain ⟨hsingle, hphased⟩ := h.phased
  have htold : reports s.outline.journal = [] := by
    have htold := h.told
    rw [hopen, hclosed] at htold
    exact htold.eq_nil
  obtain ⟨ht, hmoves, -⟩ := hclose.moves hsingle
  have houtline : t.outline = s.outline.close := by
    generalize t.outline = k at hmoves
    cases hmoves
    rfl
  obtain ⟨hdismissed, hnot, hpending, operation, error, hended⟩ :=
    Outline.dismissed_close hphased htold hopen hclosing hclosed
  rw [← houtline] at hdismissed hnot hpending hended
  refine ⟨fun more u hu => ?_, fun hquiet o ho => ?_, fun hno more u hu => ?_⟩
  · obtain ⟨-, -, hend⟩ := hu.invariant ht hdismissed.phased hdismissed fun _ hk hm => hk.moves hm
    exact hend.told
  · cases hleads : t.wires.leadsOn o with
    | false => rfl
    | true =>
      obtain ⟨before, after, htasks⟩ := List.append_of_mem ho
      have hone : before.filterMap Task.ended? ++ (o, none) :: after.filterMap Task.ended? = [(operation, error)] := by
        rw [← hended, outline, htasks, List.filterMap_append]
        rfl
      have hbefore : before.filterMap Task.ended? = [] := by
        have hlength := congrArg List.length hone
        rw [List.length_append, List.length_cons, List.length_singleton] at hlength
        exact List.eq_nil_of_length_eq_zero (by omega)
      obtain ⟨more, u, hu, hdials⟩ := exists_dials ht hdismissed htasks (List.filterMap_eq_nil_iff.mp hbefore) hleads
      exact absurd ((hquiet more u hu).symm.trans hdials) (Nat.ne_of_lt (Nat.lt_succ_self _))
  · have hebbing : t.outline.Ebbing := by
      refine ⟨hdismissed, fun _ => .inr ⟨operation, error, hpending, hended, ?_⟩⟩
      rintro rfl
      have hmem : (operation, none) ∈ t.outline.ended := hended ▸ List.mem_cons_self
      obtain ⟨task, htask, he⟩ := List.mem_filterMap.mp hmem
      have hwire : task.wire = 0 := ht.tasks task htask
      cases task with
      | finish w o e =>
        cases hwire
        cases he
        exact leadsOn_outline operation ▸ hno operation htask
      | send => cases he
      | close => cases he
    obtain ⟨-, -, -, hdials⟩ := hu.invariant (P := fun k => k.Ebbing ∧ dials k.journal = dials t.journal) ht
      hdismissed.phased ⟨hebbing, rfl⟩ fun _ hk hm => by
        obtain ⟨hj, hdials⟩ := hk.1.moves hm
        exact ⟨hj, hdials.trans hk.2⟩
    exact hdials

/-- The user has closed the connection, and nothing else has happened to it. -/
def quitSession : WireSession := played [.close]

theorem quitSession_gives_up : ∃ t, Happens quitSession (some (.close 0)) t ∧
    t.wires.tasks = [.finish 0 .resolve (some Operation.aborted)] ∧
      ∀ more u, Leads t more u → dials u.journal = dials t.journal := by
  obtain ⟨log, h⟩ : ∃ log, Leads plain log quitSession := leads_played (by simp [WireOp.IsTraffic])
  have hclose : Happens quitSession (some (.close 0)) _ := .polled courteous_quiet rfl rfl
  obtain ⟨-, hquiet⟩ := giving_up_iff h rfl rfl rfl hclose
  refine ⟨_, hclose, rfl, hquiet.mpr fun operation hmem => ?_⟩
  cases List.mem_singleton.mp hmem

/-- The address has been found after the user has closed the connection, and before this is handled. -/
def lateSession : WireSession := played [.close, .complete .resolve none [] true]

theorem lateSession_dials_on : ¬∀ log s t more u, Leads plain log s → (s.wires.wire 0).isOpen = false →
    (s.wires.wire 0).closing = false → (s.wires.wire 0).closed = false → Happens s (some (.close 0)) t →
      Leads t more u → dials u.journal = dials t.journal := by
  intro hclaim
  obtain ⟨log, h⟩ : ∃ log, Leads plain log lateSession := leads_played (by simp [WireOp.IsTraffic])
  have hclose : Happens lateSession (some (.close 0)) _ := .polled courteous_quiet rfl rfl
  have hdials := hclaim _ _ _ _ _ h rfl rfl rfl hclose
    (Leads.refl.handled (.polled courteous_quiet rfl rfl : Happens _ (some (.finish 0 .resolve none)) _))
  exact absurd hdials (by decide +kernel)

end WireSession

end QuoteFeed
