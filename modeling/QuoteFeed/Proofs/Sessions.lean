import QuoteFeed.Proofs.Ends
import QuoteFeed.Proofs.Outline

/-!
What a session does with its connection, once it has been told to connect, is to have one thing after another
happen to it, as long as nothing is laid down for its reports but to ask for something.
-/

namespace QuoteFeed

theorem Step.ends_true {σ α : Type} {s : σ} (x : Step σ α) : x.Ends s (fun _ _ => True) fun _ _ => True := by
  intro r t _
  cases r <;> exact trivial

/-- What is done with a connection that has been told to connect and that keeps its callbacks. -/
def WireOp.IsTraffic : WireOp → Prop
  | send _ | close | complete .. | poll => True
  | connect _ | detach | attach | react .. => False

/-- The operations by which something is asked for. -/
def WireOp.Asks : WireOp → Prop
  | send _ | close => True
  | connect _ | complete .. | poll | detach | attach | react .. => False

namespace WireSession

/-- Nothing is laid down for reports but to ask for something. -/
def Asking (reactions : List (Occasion × List WireOp)) : Prop :=
  ∀ occasion, ∀ op ∈ (reactions.lookup occasion).getD [], op.Asks

variable {s t : WireSession} {log : List (Wire × Task)} {notify : Nat → Report → Step WireSession Unit}
  {reactions : List (Occasion × List WireOp)} {depth : Nat}

/-- What has been laid down is courteous. -/
theorem courteous_performInside (h : Asking reactions) :
    Courteous reactions fun _ => WireSession.notify (performInside (depth + 1)) := by
  intro receiver r s hs
  let noted : WireSession := { s with journal := entry r :: s.journal }
  simp only [WireSession.notify, Step.gives_bind, Step.gives_modify, Step.gives_get]
  refine Step.gives_forM (P := Notified r s) (s := noted) ⟨rfl, ⟨[], by simp, by simp [noted]⟩, rfl⟩ ?_
  rintro op hop t ⟨hjournal, ⟨asked, hasked, hwires⟩, hreactions⟩
  have hpost : ∀ task : Task, task.IsAsked →
      (Exchange.changeAll (Wires.post task) : Step WireSession Unit).Gives t fun _ u => Notified r s u := by
    intro task htask
    refine Step.gives_modify.mpr ⟨hjournal, ⟨asked ++ [task], ?_, ?_⟩, hreactions⟩
    · intro other hother
      rcases List.mem_append.mp hother with hother | hother
      · exact hasked other hother
      · exact List.mem_singleton.mp hother ▸ htask
    · simp only [HasWires.withWires, HasWires.wires, Wires.post, hwires, List.append_assoc]
  have hasks : op.Asks := h (occasion r) op (hs ▸ hop)
  cases op with
  | send frame => exact hpost _ rfl
  | close => exact hpost _ rfl
  | connect url => exact hasks.elim
  | complete operation error data later => exact hasks.elim
  | poll => exact hasks.elim
  | detach => exact hasks.elim
  | attach => exact hasks.elim
  | react occasion operations => exact hasks.elim

/-- To do what is to be done, until nothing is, is to have one thing after another happen. -/
theorem leads_of_poll (hs : s.wires.Single) (hnotify : Courteous s.reactions notify) {fuel : Nat}
    (h : (Exchange.poll notify fuel).outcome s = some (.ok (), t)) : ∃ log, Leads s log t := by
  induction fuel generalizing s with
  | zero => cases h
  | succ fuel ih =>
    simp only [Exchange.poll, Step.outcome_bind, Step.outcome_get] at h
    split at h
    next => exact ⟨[], by cases h; exact .refl⟩
    next task rest htasks =>
      simp only [Exchange.changeAll, Step.outcome_bind, Step.outcome_modify] at h
      split at h
      next => cases h
      next u hu =>
        have hhappens : Happens s (some task) u := .polled hnotify htasks hu
        obtain ⟨hsingle, -, -, hreactions⟩ := hhappens.moves hs
        obtain ⟨log, hlog⟩ := ih hsingle (hreactions ▸ hnotify) h
        exact ⟨_, (Leads.refl.handled hhappens).trans hlog⟩
      next => cases h

theorem eq_of_complete {operation : Operation} {error : Option Octets} {data : Octets} {late : Bool}
    (h : (Exchange.complete notify operation error data late).outcome s = some (.ok false, t)) : t = s := by
  have hends : (Exchange.complete notify operation error data late).Ends s (fun found t => found = false → t = s)
      fun _ _ => True := by
    simp only [Exchange.complete, Step.ends_bind, Step.ends_get]
    cases (HasWires.wires s).complete operation data with
    | none => exact Step.ends_pure.mpr fun _ => rfl
    | some found =>
      have hdone : ∀ (x : Step WireSession Unit) u,
          (do x; pure true).Ends u (fun found t => found = false → t = s) fun _ _ => True := by
        intro x u
        refine Step.ends_bind.mpr ((Step.ends_true x).mono (fun _ t _ => ?_) fun _ _ _ => trivial)
        exact Step.ends_pure.mpr fun h => absurd h Bool.noConfusion
      simp only [Exchange.changeAll, Step.ends_bind, Step.ends_modify]
      exact Step.ends_ite.mpr ⟨fun _ => hdone _ _, fun _ => hdone _ _⟩
  exact hends.value h rfl

theorem leads_of_perform (hs : s.wires.Single) (hasking : Asking s.reactions) {op : WireOp} (hop : op.IsTraffic)
    {reply : Reply} (h : (perform (depth + 1) op).outcome s = some (.ok reply, t)) : ∃ log, Leads s log t := by
  have hcourteous : Courteous s.reactions fun _ => WireSession.notify (performInside (depth + 1)) :=
    courteous_performInside hasking
  cases op with
  | send frame =>
    cases h
    exact ⟨_, Leads.refl.silent (.asked (.send 0 frame) rfl)⟩
  | close =>
    cases h
    exact ⟨_, Leads.refl.silent (.asked (.close 0) rfl)⟩
  | complete operation error data later =>
    simp only [perform, take, Step.outcome_bind] at h
    split at h
    next => cases h
    next found u hu =>
      cases h
      cases found with
      | true =>
        cases later with
        | true => exact ⟨_, Leads.refl.silent (.ended hu)⟩
        | false => exact ⟨_, Leads.refl.handled (.finished hcourteous hu)⟩
      | false =>
        cases eq_of_complete hu
        exact ⟨_, .refl⟩
    next => cases h
  | poll =>
    simp only [perform, take, Step.outcome_bind] at h
    split at h
    next => cases h
    next u hu =>
      cases h
      exact leads_of_poll hs hcourteous hu
    next => cases h
  | connect url => exact hop.elim
  | detach => exact hop.elim
  | attach => exact hop.elim
  | react occasion operations => exact hop.elim

theorem Leads.single (h : Leads s log t) (hs : s.wires.Single) : t.wires.Single ∧ t.reactions = s.reactions := by
  induction h with
  | refl => exact ⟨hs, rfl⟩
  | silent _ hlast ih =>
    obtain ⟨hsingle, -, -, hreactions⟩ := hlast.moves ih.1
    exact ⟨hsingle, hreactions.trans ih.2⟩
  | handled _ hlast ih =>
    obtain ⟨hsingle, -, -, hreactions⟩ := hlast.moves ih.1
    exact ⟨hsingle, hreactions.trans ih.2⟩

/-- Performs some operations, one after another, with enough depth for what is asked for inside reports. -/
def performAll (depth : Nat) (ops : List WireOp) : Step WireSession Unit := ops.forM (performInside (depth + 2))

theorem reply_of_performInside {op : WireOp} (h : (performInside (depth + 1) op).outcome s = some (.ok (), t)) :
    ∃ reply, (perform depth op).outcome s = some (.ok reply, t) := by
  simp only [performInside, Step.outcome_bind] at h
  split at h
  next => cases h
  next reply u hu =>
    cases h
    exact ⟨reply, hu⟩
  next => cases h

theorem leads_of_performAll (hs : s.wires.Single) (hasking : Asking s.reactions) {ops : List WireOp}
    (hops : ∀ op ∈ ops, op.IsTraffic) (h : (performAll depth ops).outcome s = some (.ok (), t)) :
    ∃ log, Leads s log t := by
  induction ops generalizing s with
  | nil =>
    cases h
    exact ⟨_, .refl⟩
  | cons op rest ih =>
    have hcons : performAll depth (op :: rest) = (do performInside (depth + 2) op; performAll depth rest) := rfl
    rw [hcons, Step.outcome_bind] at h
    split at h
    next => cases h
    next u hu =>
      obtain ⟨reply, hreply⟩ := reply_of_performInside hu
      obtain ⟨log, hlog⟩ := leads_of_perform hs hasking (hops op List.mem_cons_self) hreply
      obtain ⟨hsingle, hreactions⟩ := hlog.single hs
      obtain ⟨later, hlater⟩ := ih hsingle (hreactions ▸ hasking)
        (fun other hother => hops other (List.mem_cons_of_mem _ hother)) h
      exact ⟨_, hlog.trans hlater⟩
    next => cases h

variable {serverNameFails verifyHostFails : Bool} {endpoint : Endpoint}

theorem single_dialed : (dialed serverNameFails verifyHostFails reactions endpoint).wires.Single where
  alone := rfl
  stream := rfl
  attached := rfl
  pending p hp := by
    rw [List.mem_singleton.mp hp]
    exact ⟨rfl, rfl⟩
  tasks _ htask := nomatch htask

/-- What a session does that connects once, before everything else, is to dial and then to have one thing after
another happen. -/
theorem leads_of_connecting {url : Octets} (hurl : Endpoint.parse url = .ok endpoint) (hasking : Asking reactions)
    {ops : List WireOp} (hops : ∀ op ∈ ops, op.IsTraffic)
    (h : (performAll depth (.connect url :: ops)).outcome { wires :=
      { wires := [{ attached := some 0 }], serverNameFails, verifyHostFails }, reactions } = some (.ok (), t)) :
    ∃ log, Leads (dialed serverNameFails verifyHostFails reactions endpoint) log t := by
  have hcons : performAll depth (.connect url :: ops) =
      (do performInside (depth + 2) (.connect url); performAll depth ops) := rfl
  rw [hcons, Step.outcome_bind] at h
  split at h
  next => cases h
  next u hu =>
    obtain ⟨reply, hreply⟩ := reply_of_performInside hu
    simp only [perform, take, hurl] at hreply
    cases hreply
    exact leads_of_performAll single_dialed hasking hops h
  next => cases h

/-- What a connection without encryption comes to by some operations. -/
def played (ops : List WireOp) : WireSession :=
  match (performAll 0 ops).outcome plain with
  | some (.ok _, t) => t
  | _ => plain

theorem leads_played {ops : List WireOp} (hops : ∀ op ∈ ops, op.IsTraffic) : ∃ log, Leads plain log (played ops) := by
  unfold played
  split
  next t h => exact leads_of_performAll single_dialed (fun _ _ hop => nomatch hop) hops h
  next => exact ⟨_, .refl⟩

end WireSession

end QuoteFeed
