import QuoteFeed.Handlers
import QuoteFeed.Proofs.Ends
import QuoteFeed.Proofs.Registrations

/-!
The delivery of an event. Handlers may do what they like with the bus while they are called: whoever was
registered when the delivery began has one turn, in the order of registration, and is called unless it has
been removed before its turn.
-/

namespace QuoteFeed

theorem Step.outcome_ignoreFailure {σ : Type} (x : Step σ Unit) (s : σ) :
    (ignoreFailure x).outcome s = (x.outcome s).map fun p => (.ok (), p.2) := by
  rw [ignoreFailure, outcome_tryCatch]
  rcases x.outcome s with _ | ⟨_ | _, t⟩ <;> rfl

namespace Stage

variable {β ρ α γ : Type} {s t u : Stage β ρ} {e : Event} {x : Step (Stage β ρ) α}
  {run : Slot β → Event → Step (Stage β ρ) Unit} {b : Bus β}

/-- The stage has some bus, or what has become of it. -/
def Continues (b : Bus β) (s : Stage β ρ) : Prop := ∃ deeds, b.Becomes deeds s.bus

/-- A program that deals with the handlers of the bus by registering and removing them only. It may fail, and
it may have events delivered to handlers that do the same. -/
def UsesBus (x : Step (Stage β ρ) α) : Prop := ∀ b, Step.Preserves (Continues b) x

theorem Continues.refl : Continues s.bus s := ⟨[], .refl⟩

theorem UsesBus.continues (h : UsesBus x) {r : Except Failure α} (hx : x.outcome s = some (r, t)) :
    Continues s.bus t :=
  (h s.bus).left .refl hx

theorem usesBus_deliver (hrun : ∀ slot e, UsesBus (run slot e)) (e : Event) (ids : List Nat) :
    UsesBus (deliver run e ids) := by
  intro b
  induction ids with
  | nil => exact Step.preserves_pure _
  | cons id rest ih =>
    refine Step.preserves_look fun s hs => ?_
    cases s.bus.find? id with
    | none => exact ih s hs
    | some slot =>
      exact ((hrun slot e b).tryCatch fun _ => Step.preserves_pure _).bind (fun _ => ih) s hs

theorem usesBus_publish (hrun : ∀ slot e, UsesBus (run slot e)) (e : Event) : UsesBus (publish run e) :=
  fun b => Step.preserves_look fun s hs => usesBus_deliver hrun e _ b s hs

/-- A delivery that began in `s`, as far as it has come: the handlers whose turn it was, those of them that were
called, what has been done with the handlers of the bus since, the last deed first, and the present state. -/
inductive Delivers (run : Slot β → Event → Step (Stage β ρ) Unit) (e : Event) (s : Stage β ρ) :
    List Nat → List Nat → List BusDeed → Stage β ρ → Prop
  | start : Delivers run e s [] [] [] s
  /-- A handler is called for the event that is still registered. The delivery goes on from what the call leaves,
  with a value or with a failure. -/
  | call {turns called : List Nat} {done deeds : List BusDeed} {t u : Stage β ρ} {id : Nat} {slot : Slot β}
      {r : Except Failure Unit} :
      Delivers run e s turns called done t → ¬BusDeed.Withdrawn id done → t.bus.find? id = some slot →
      slot.kind = e.kind → (run slot e).outcome t = some (r, u) → t.bus.Becomes deeds u.bus →
      Delivers run e s (turns ++ [id]) (called ++ [id]) (deeds ++ done) u
  /-- A handler is passed over that has been removed since the delivery began. -/
  | pass {turns called : List Nat} {done : List BusDeed} {t : Stage β ρ} {id : Nat} :
      Delivers run e s turns called done t → BusDeed.Withdrawn id done →
      Delivers run e s (turns ++ [id]) called done t

section

variable {turns called : List Nat} {life done : List BusDeed}

theorem Delivers.becomes (h : Delivers run e s turns called done t) : s.bus.Becomes done t.bus := by
  induction h with
  | start => exact .refl
  | call _ _ _ _ _ hdeeds ih => exact ih.trans hdeeds
  | pass _ _ ih => exact ih

theorem Delivers.sublist (h : Delivers run e s turns called done t) : called.Sublist turns := by
  induction h with
  | start => exact .refl _
  | call _ _ _ _ _ _ ih => exact ih.append (.refl _)
  | pass _ _ ih => exact ih.trans (List.sublist_append_left _ _)

/-- A delivery that goes on to some handlers that were registered when it began comes to its end without a
failure, with a turn for each of them. -/
theorem Delivers.deliver (hlife : Bus.Becomes {} life s.bus) (hrun : ∀ slot e, UsesBus (run slot e)) {ids : List Nat}
    (hids : ∀ id ∈ ids, (id, e.kind) ∈ s.bus.keys) (h : Delivers run e s turns called done t)
    {r : Except Failure Unit} (hx : (Stage.deliver run e ids).outcome t = some (r, u)) :
    r = .ok () ∧ ∃ called done, Delivers run e s (turns ++ ids) called done u := by
  induction ids generalizing t turns called done with
  | nil =>
    cases hx
    exact ⟨rfl, called, done, by rwa [List.append_nil]⟩
  | cons id rest ih =>
    have hrest : ∀ id ∈ rest, (id, e.kind) ∈ s.bus.keys := fun id hid => hids id (List.mem_cons_of_mem _ hid)
    rw [List.append_cons]
    simp only [Stage.deliver, Step.outcome_bind, Step.outcome_get] at hx
    obtain ⟨hfind, hgone⟩ | ⟨slot, hfind, hkind, hstays⟩ := hlife.find? h.becomes (hids id List.mem_cons_self)
    · simp only [hfind] at hx
      exact ih hrest (h.pass hgone) hx
    · simp only [hfind, Step.outcome_bind, Step.outcome_ignoreFailure] at hx
      cases hcall : (run slot e).outcome t with
      | none => simp [hcall] at hx
      | some p =>
        obtain ⟨deeds, hdeeds⟩ := (hrun slot e).continues hcall
        simp only [hcall, Option.map_some] at hx
        exact ih hrest (h.call hstays hfind hkind hcall hdeeds) hx

end

end Stage

section

variable {ω ρ : Type} {act : Nat → Action ω → Step (Stage (Handler ω) ρ) Unit} {semantics : Action.Semantics ω ρ}

theorem Handler.usesBus_run (hact : ∀ id action, Stage.UsesBus (act id action)) (slot : Slot (Handler ω)) (e : Event) :
    Stage.UsesBus (Handler.run act slot e) := by
  intro b
  refine Step.Preserves.bind (Step.preserves_modify fun _ hs => hs) fun _ => ?_
  refine Step.Preserves.bind (Step.preserves_modify fun s hs => ?_) fun _ =>
    Step.preserves_forM fun action => hact slot.id action b
  obtain ⟨deeds, h⟩ := hs
  exact ⟨deeds, h.setBody _ _⟩

theorem Action.usesBus_take (hact : ∀ id action, Stage.UsesBus (act id action))
    (hsemantics : ∀ emit o, (∀ e, Stage.UsesBus (emit e)) → Stage.UsesBus (semantics emit o)) (self : Option Nat)
    (action : Action ω) : Stage.UsesBus (take semantics act self action) := by
  have hpublish : ∀ e, Stage.UsesBus (Stage.publish (Handler.run act) e) :=
    Stage.usesBus_publish fun slot e => Handler.usesBus_run hact slot e
  intro b
  cases action with
  | on kind actions times =>
    refine Step.preserves_look fun s hs => ?_
    obtain ⟨deeds, h⟩ := hs
    exact Step.ends_bind.mpr (Step.ends_modify.mpr (Step.ends_pure.mpr ⟨_, h.on kind (.script actions times)⟩))
  | off id =>
    refine Step.preserves_look fun s hs => ?_
    obtain ⟨deeds, h⟩ := hs
    exact Step.ends_bind.mpr (Step.ends_modify.mpr (Step.ends_pure.mpr ⟨_, h.off id⟩))
  | count kind => exact Step.preserves_look fun s hs => Step.ends_pure.mpr hs
  | clear =>
    refine Step.Preserves.bind (Step.preserves_modify fun s hs => ?_) fun _ => Step.preserves_pure _
    obtain ⟨deeds, h⟩ := hs
    exact ⟨_, h.clear⟩
  | publish e => exact (hpublish e b).bind fun _ => Step.preserves_pure _
  | fail => exact Step.preserves_throw _
  | failForeign => exact Step.preserves_throw _
  | offSelf =>
    cases self with
    | none => exact Step.preserves_pure _
    | some id =>
      refine Step.Preserves.bind (Step.preserves_modify fun s hs => ?_) fun _ => Step.preserves_pure _
      obtain ⟨deeds, h⟩ := hs
      exact ⟨_, h.off id⟩
  | other o => exact hsemantics _ o hpublish b

/-- What is laid down for a handler uses the bus only, if whatever else there is does. -/
theorem Action.usesBus_perform
    (hsemantics : ∀ emit o, (∀ e, Stage.UsesBus (emit e)) → Stage.UsesBus (semantics emit o)) (depth self : Nat)
    (action : Action ω) : Stage.UsesBus (perform semantics depth self action) := by
  induction depth generalizing self action with
  | zero => exact fun _ => Step.preserves_exhausted
  | succ depth ih =>
    exact fun b => (usesBus_take (fun id a => ih id a) hsemantics (some self) action b).bind fun _ => Step.preserves_pure _

end

namespace Stage

variable {β ρ : Type} {s t : Stage β ρ} {e : Event} {run : Slot β → Event → Step (Stage β ρ) Unit}

/-- A publication is a delivery to those who are registered for the kind of the event, and does not fail. -/
theorem delivers_of_publish {life : List BusDeed} (hlife : Bus.Becomes {} life s.bus)
    (hrun : ∀ slot e, UsesBus (run slot e)) {r : Except Failure Unit} (h : (publish run e).outcome s = some (r, t)) :
    r = .ok () ∧ ∃ called done, Delivers run e s (s.bus.idsOf e.kind) called done t := by
  have hx : (Stage.deliver run e (s.bus.idsOf e.kind)).outcome s = some (r, t) := h
  exact Delivers.start.deliver hlife hrun (fun id hid => Bus.mem_idsOf.mp hid) hx

/-- An event is published on a bus to which anything may have been done before, by handlers that do anything with
the bus while they are called. If the delivery ends, then without a failure. Each handler has one turn that is
registered for the kind of the event when it begins, in the order of registration. It is called at its turn
unless it has been removed by then, and no handler is called that is registered meanwhile. -/
theorem publish_calls_registered {life : List BusDeed} (hlife : Bus.Becomes {} life s.bus)
    (hrun : ∀ slot e, UsesBus (run slot e)) {r : Except Failure Unit} (h : (publish run e).outcome s = some (r, t)) :
    r = .ok () ∧ ∃ turns called done, Delivers run e s turns called done t ∧
      (∀ id, id ∈ turns ↔ BusDeed.Standing id e.kind life) ∧ turns.Nodup ∧
      turns.Sublist ((BusDeed.registered life).map Prod.fst) ∧ called.Sublist turns ∧
      ∀ id kind, .on id kind ∈ done → id ∉ called := by
  have hturns : (s.bus.idsOf e.kind).Sublist (s.bus.keys.map Prod.fst) := by
    rw [Bus.idsOf_eq_keys]
    exact List.filter_sublist.map Prod.fst
  have hregistered : (s.bus.keys.map Prod.fst).Sublist ((BusDeed.registered life).map Prod.fst) :=
    hlife.sublist.map Prod.fst
  have hnodup : (s.bus.keys.map Prod.fst).Nodup :=
    List.pairwise_map.mpr (hlife.sorted.1.imp fun hlt => Nat.ne_of_lt hlt)
  obtain ⟨hr, called, done, hdelivers⟩ := delivers_of_publish hlife hrun h
  refine ⟨hr, _, called, done, hdelivers, fun id => hlife.mem_idsOf, hnodup.sublist hturns,
    hturns.trans hregistered, hdelivers.sublist, fun id kind hon hcalled => ?_⟩
  have hlow := (hdelivers.becomes.registered_lt.2.1 _ (BusDeed.mem_registered hon)).1
  have hhigh := hlife.sorted.2 _ (Bus.mem_idsOf.mp (hdelivers.sublist.subset hcalled))
  exact absurd hhigh (Nat.not_lt.mpr hlow)

end Stage

namespace BusSession

/-- There is nothing but the bus. -/
def nothingElse : Action.Semantics Empty Unit := fun _ o => o.elim

/-- The handlers of a session, which call each other up to a depth. -/
def handlers (depth : Nat) : Slot (Handler Empty) → Event → Step BusSession Unit :=
  Handler.run (Action.perform nothingElse depth)

theorem perform_publish (depth : Nat) (e : Event) :
    BusSession.perform depth (.publish e) = (Stage.publish (handlers depth) e >>= fun _ => pure .nothing) := by
  have hnothing : ∀ semantics : Action.Semantics Empty Unit, semantics = nothingElse := by
    intro semantics
    funext _ o
    exact o.elim
  exact congrArg (fun semantics => Action.take semantics (Action.perform semantics depth) none (.publish e)) (hnothing _)

theorem usesBus_handlers (depth : Nat) (slot : Slot (Handler Empty)) (e : Event) :
    Stage.UsesBus (handlers depth slot e) :=
  Handler.usesBus_run (fun id action => Action.usesBus_perform (fun _ o => o.elim) depth id action) slot e

/-- The first handler has the third one removed, by the handler of another event, and registers one more; the
first two fail, and the fourth removes all. -/
def crowd : Bus (Handler Empty) :=
  let b : Bus (Handler Empty) := {}
  let b := (b.on .error (.script [.on .error [] none, .publish (.connected []), .fail] none)).2
  let b := (b.on .error (.script [.failForeign] none)).2
  let b := (b.on .error (.script [] none)).2
  let b := (b.on .error (.script [.clear] none)).2
  let b := (b.on .connected (.script [.off 3] none)).2
  (b.on .error (.script [] none)).2

theorem crowd_calls : ∃ t life, Bus.Becomes {} life crowd ∧
    (Stage.publish (handlers 3) (.error [])).outcome { bus := crowd, rest := () } = some (.ok (), t) ∧
    (BusSession.perform 3 (.publish (.error []))).outcome { bus := crowd, rest := () } = some (.ok .nothing, t) ∧
    t.journal.reverse = [.handled 1 (.error []), .handled 5 (.connected []), .handled 2 (.error []),
      .handled 4 (.error [])] ∧
    ∃ turns called done, Stage.Delivers (handlers 3) (.error []) { bus := crowd, rest := () } turns called done t ∧
      ∀ id, id ∈ turns ↔ BusDeed.Standing id .error life := by
  have hlife : Bus.Becomes {} _ crowd := .on _ _ (.on _ _ (.on _ _ (.on _ _ (.on _ _ (.on _ _ .refl)))))
  have hx : (Stage.publish (handlers 3) (.error [])).outcome { bus := crowd, rest := () } = some (.ok (), _) := rfl
  obtain ⟨-, turns, called, done, hdelivers, hturns, -⟩ :=
    Stage.publish_calls_registered hlife (fun slot e => usesBus_handlers 3 slot e) hx
  refine ⟨_, _, hlife, hx, ?_, rfl, turns, called, done, hdelivers, hturns⟩
  rw [perform_publish, Step.outcome_bind, hx]
  rfl

end BusSession

end QuoteFeed
