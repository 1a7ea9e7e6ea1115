import QuoteFeed.Scenario
import QuoteFeed.Proofs.Acts
import QuoteFeed.Proofs.Dealings
import QuoteFeed.Proofs.ScriptedConduct

/-!
Scenarios as runs of a client. Handlers are data here, and may be laid down to do anything, so that it has to be
said of them that they keep to what consumers may do. On a bus with such handlers only, a scenario publishes as a
consumer does, and what it comes to is reached by a client.
-/

namespace QuoteFeed

namespace Step

variable {σ α γ : Type} {P : σ → Prop}

/-- From states of some sort the second program does what the first one does, and leaves such states. -/
structure Agrees (P : σ → Prop) (x y : Step σ α) : Prop where
  same : ∀ s, P s → y.outcome s = x.outcome s
  keeps : Preserves P x

theorem Preserves.agrees {x : Step σ α} (h : Preserves P x) : Agrees P x x := ⟨fun _ _ => rfl, h⟩

theorem agrees_modify {f : σ → σ} (hf : ∀ s, P s → P (f s)) : Agrees P (modify f : Step σ PUnit) (modify f) :=
  (preserves_modify hf).agrees

theorem Agrees.bind {x y : Step σ α} {f g : α → Step σ γ} (hx : Agrees P x y) (hf : ∀ a, Agrees P (f a) (g a)) :
    Agrees P (x >>= f) (y >>= g) := by
  refine ⟨fun s hs => ?_, hx.keeps.bind fun a => (hf a).keeps⟩
  rw [outcome_bind, outcome_bind, hx.same s hs]
  rcases ho : x.outcome s with _ | ⟨_ | a, t⟩
  · rfl
  · rfl
  · exact (hf a).same t (hx.keeps.left hs ho)

theorem Agrees.tryCatch {x y : Step σ α} {f g : Failure → Step σ α} (hx : Agrees P x y)
    (hf : ∀ e, Agrees P (f e) (g e)) : Agrees P (tryCatch x f) (tryCatch y g) := by
  refine ⟨fun s hs => ?_, hx.keeps.tryCatch fun e => (hf e).keeps⟩
  rw [outcome_tryCatch, outcome_tryCatch, hx.same s hs]
  rcases ho : x.outcome s with _ | ⟨e | _, t⟩
  · rfl
  · exact (hf e).same t (hx.keeps.left hs ho)
  · rfl

/-- What follows a look at the state has to agree only if the state is of the sort. -/
theorem agrees_look {f g : σ → Step σ α} (h : ∀ s, P s → Agrees P (f s) (g s)) : Agrees P (get >>= f) (get >>= g) :=
  ⟨fun s hs => (h s hs).same s hs, preserves_look fun s hs => (h s hs).keeps s hs⟩

theorem agrees_forM {as : List γ} {f g : γ → Step σ PUnit} (h : ∀ a ∈ as, Agrees P (f a) (g a)) :
    Agrees P (as.forM f) (as.forM g) := by
  induction as with
  | nil => exact (preserves_pure _).agrees
  | cons a as ih => exact (h a List.mem_cons_self).bind fun _ => ih fun b hb => h b (List.mem_cons_of_mem a hb)

end Step

/-- Clients do the same with consumers that do the same on buses of some sort. -/
theorem Deals.agrees {β τ α : Type} {net : Network τ} {emit emit' : Event → Step (Stage β (World τ)) Unit}
    {x y : Step (Stage β (World τ)) α} {K : Bus β → Prop}
    (hemit : ∀ e, Step.Agrees (fun s => K s.bus) (emit e) (emit' e)) (h : Deals net emit emit' x y) :
    Step.Agrees (fun s => K s.bus) x y := by
  induction h with
  | pure a => exact (Step.preserves_pure a).agrees
  | throw e => exact (Step.preserves_throw e).agrees
  | bind _ _ ihx ihf => exact ihx.bind ihf
  | tryCatch _ _ ihx ihf => exact ihx.tryCatch ihf
  | look => exact ⟨fun _ _ => rfl, fun _ hs => Step.ends_get.mpr hs⟩
  | alter f hf => exact Step.agrees_modify fun _ hs => hs
  | attach link attempt => exact Step.agrees_modify fun _ hs => hs
  | detach link => exact Step.agrees_modify fun _ hs => hs
  | remember hd => exact Step.agrees_modify fun _ hs => hs
  | does hd => exact Step.Preserves.agrees fun _ hs => Client.ends_outside.mpr hs
  | tell e => exact .bind (Step.agrees_modify fun _ hs => hs) fun _ => hemit e

section

variable {ω : Type} {p : Action ω → Prop}

/-- The action is of some sort, and so is whatever the handlers do that it registers. -/
inductive Action.Only (p : Action ω → Prop) : Action ω → Prop
  | mk {action : Action ω} : p action →
      (∀ kind actions times, action = .on kind actions times → ∀ a ∈ actions, Only p a) → Only p action

theorem Action.Only.self {action : Action ω} (h : action.Only p) : p action := by
  obtain ⟨hp, -⟩ := h
  exact hp

theorem Action.Only.registered {kind : EventKind} {actions : List (Action ω)} {times : Option Nat}
    (h : (on kind actions times).Only p) : ∀ a ∈ actions, a.Only p := by
  obtain ⟨-, hactions⟩ := h
  exact hactions kind actions times rfl

/-- Whatever the handler may still do is of some sort. -/
def Handler.Only (p : Action ω → Prop) : Handler ω → Prop
  | observer => True
  | script actions _ => ∀ a ∈ actions, a.Only p

theorem Handler.Only.afterCall {h : Handler ω} (hh : h.Only p) : h.afterCall.Only p := by
  cases h with
  | observer => exact hh
  | script actions times => exact hh

theorem Handler.Only.actionsOfCall {h : Handler ω} (hh : h.Only p) : ∀ a ∈ h.actionsOfCall, a.Only p := by
  cases h with
  | observer => exact List.forall_mem_nil _
  | script actions times =>
    rcases times with _ | _ | n
    · exact hh
    · exact List.forall_mem_nil _
    · exact hh

/-- All handlers of the bus do things of some sort only. -/
def Bus.Staffed (p : Action ω → Prop) (b : Bus (Handler ω)) : Prop := ∀ slot ∈ b.slots, slot.body.Only p

namespace Bus.Staffed

variable {b : Bus (Handler ω)}

theorem on (h : b.Staffed p) (kind : EventKind) {body : Handler ω} (hbody : body.Only p) :
    (b.on kind body).2.Staffed p := by
  intro slot hslot
  rcases List.mem_append.mp hslot with hslot | hslot
  · exact h slot hslot
  · rw [List.mem_singleton.mp hslot]
    exact hbody

theorem off (h : b.Staffed p) (id : Nat) : (b.off id).2.Staffed p :=
  fun slot hslot => h slot (List.mem_filter.mp hslot).1

theorem setBody (h : b.Staffed p) (id : Nat) {body : Handler ω} (hbody : body.Only p) :
    (b.setBody id body).Staffed p := by
  intro slot hslot
  obtain ⟨old, hold, rfl⟩ := List.mem_map.mp hslot
  by_cases hid : old.id = id
  · rw [if_pos hid]
    exact hbody
  · rw [if_neg hid]
    exact h old hold

theorem find? (h : b.Staffed p) {id : Nat} {slot : Slot (Handler ω)} (hfind : b.find? id = some slot) :
    slot.body.Only p :=
  h slot (List.mem_of_find?_eq_some hfind)

end Bus.Staffed

end

section

variable {ω ρ : Type} {p : Action ω → Prop} {act act' : Nat → Action ω → Step (Stage (Handler ω) ρ) Unit}
  {semantics semantics' : Action.Semantics ω ρ}

theorem Handler.agrees_run
    (hact : ∀ self a, a.Only p → Step.Agrees (fun s => s.bus.Staffed p) (act self a) (act' self a))
    {slot : Slot (Handler ω)} (hslot : slot.body.Only p) (e : Event) :
    Step.Agrees (fun s => s.bus.Staffed p) (run act slot e) (run act' slot e) := by
  refine .bind (Step.agrees_modify fun _ hs => hs) fun _ => ?_
  refine .bind (Step.agrees_modify fun _ hs => hs.setBody _ hslot.afterCall) fun _ => ?_
  exact Step.agrees_forM fun a ha => hact slot.id a (hslot.actionsOfCall a ha)

theorem Stage.agrees_publish
    (hact : ∀ self a, a.Only p → Step.Agrees (fun s => s.bus.Staffed p) (act self a) (act' self a)) (e : Event) :
    Step.Agrees (fun s => s.bus.Staffed p) (publish (Handler.run act) e) (publish (Handler.run act') e) := by
  refine Step.agrees_look fun s hs => ?_
  induction s.bus.idsOf e.kind with
  | nil => exact (Step.preserves_pure ()).agrees
  | cons id ids ih =>
    refine Step.agrees_look fun t ht => ?_
    cases hfind : t.bus.find? id with
    | none => exact ih
    | some slot =>
      have hrun := Handler.agrees_run hact (ht.find? hfind) e
      exact (hrun.tryCatch fun _ => (Step.preserves_pure ()).agrees).bind fun _ => ih

namespace Action

variable (hsemantics : ∀ emit emit' o, p (.other o) →
  (∀ e, Step.Agrees (fun s => s.bus.Staffed p) (emit e) (emit' e)) →
  Step.Agrees (fun s => s.bus.Staffed p) (semantics emit o) (semantics' emit' o))
include hsemantics

theorem agrees_take (hact : ∀ self a, a.Only p → Step.Agrees (fun s => s.bus.Staffed p) (act self a) (act' self a))
    (self : Option Nat) {action : Action ω} (h : action.Only p) :
    Step.Agrees (fun s => s.bus.Staffed p) (take semantics act self action) (take semantics' act' self action) := by
  have hpublish := Stage.agrees_publish hact
  cases action with
  | on kind actions times =>
    refine Step.agrees_look fun s hs => ?_
    have hon : (s.bus.on kind (.script actions times)).2.Staffed p := hs.on kind h.registered
    exact .bind (Step.agrees_modify fun _ _ => hon) fun _ => (Step.preserves_pure _).agrees
  | off id =>
    refine Step.agrees_look fun s hs => ?_
    have hoff : (s.bus.off id).2.Staffed p := hs.off id
    exact .bind (Step.agrees_modify fun _ _ => hoff) fun _ => (Step.preserves_pure _).agrees
  | count kind => exact Step.agrees_look fun _ _ => (Step.preserves_pure _).agrees
  | clear =>
    have hclear : ∀ b : Bus (Handler ω), b.clear.Staffed p := fun _ => List.forall_mem_nil _
    exact .bind (Step.agrees_modify fun s _ => hclear s.bus) fun _ => (Step.preserves_pure _).agrees
  | publish e => exact (hpublish e).bind fun _ => (Step.preserves_pure _).agrees
  | fail => exact (Step.preserves_throw _).agrees
  | failForeign => exact (Step.preserves_throw _).agrees
  | offSelf =>
    cases self with
    | none => exact (Step.preserves_pure _).agrees
    | some id => exact .bind (Step.agrees_modify fun _ hs => hs.off id) fun _ => (Step.preserves_pure _).agrees
  | other o => exact hsemantics _ _ o h.self hpublish

theorem agrees_perform (depth self : Nat) {action : Action ω} (h : action.Only p) :
    Step.Agrees (fun s => s.bus.Staffed p) (perform semantics depth self action)
      (perform semantics' depth self action) := by
  induction depth generalizing self action with
  | zero => exact Step.preserves_exhausted.agrees
  | succ depth ih =>
    exact (agrees_take hsemantics (fun self a ha => ih self ha) (some self) h).bind fun _ =>
      (Step.preserves_pure ()).agrees

end Action

end

section

variable {ω τ : Type} {net : Network τ} {c : Conduct net} {may : Use → Prop}
  {act : Nat → Action ω → Step (Stage (Handler ω) (World τ)) Unit} {semantics : Action.Semantics ω (World τ)}

theorem Handler.uses_run {emit : Event → Step (Stage (Handler ω) (World τ)) Unit}
    (hact : ∀ self a, Uses c may emit (act self a)) (slot : Slot (Handler ω)) (e : Event) :
    Uses c may emit (run act slot e) := by
  refine .bind (.arrange _ fun _ => rfl) fun _ => .bind (.arrange _ fun _ => rfl) fun _ => ?_
  exact .forM fun a _ => hact slot.id a

/-- What operations of some sort do; others do nothing. -/
def Action.within {ρ : Type} (q : ω → Prop) [DecidablePred q] (semantics : Action.Semantics ω ρ) :
    Action.Semantics ω ρ :=
  fun emit o => if q o then semantics emit o else pure .nothing

theorem Action.uses_take
    (hsemantics : ∀ emit o, Uses c may emit (semantics emit o)) (self : Option Nat) (action : Action ω) :
    Uses c may (Stage.publish (Handler.run act)) (take semantics act self action) := by
  cases action with
  | on kind actions times => exact .bind .look fun _ => .bind (.arrange _ fun _ => rfl) fun _ => .pure _
  | off id => exact .bind .look fun _ => .bind (.arrange _ fun _ => rfl) fun _ => .pure _
  | count kind => exact .bind .look fun _ => .pure _
  | clear => exact .bind (.arrange _ fun _ => rfl) fun _ => .pure _
  | publish e => exact .bind (.publish e) fun _ => .pure _
  | fail => exact .fail _
  | failForeign => exact .fail _
  | offSelf =>
    cases self with
    | none => exact .pure _
    | some id => exact .bind (.arrange _ fun _ => rfl) fun _ => .pure _
  | other o => exact hsemantics _ o

/-- Handlers that can do nothing but what consumers may do are consumers. -/
theorem Action.consumer_emitter (hsemantics : ∀ emit o, Uses c may emit (semantics emit o)) (depth : Nat) :
    Consumer c may (emitter semantics depth) := by
  induction depth with
  | zero => exact .hearing .deaf fun slot e => Handler.uses_run (fun _ _ => .hang) slot e
  | succ depth ih =>
    refine .hearing ih fun slot e => Handler.uses_run (fun self a => ?_) slot e
    exact (uses_take hsemantics (some self) a).bind fun _ => .pure ()

end

/-- What is laid down anew lets no move break, and no sending fail if links are to be quiet. -/
structure ScriptedLinks.Change.Fit (quiet : Bool) (c : Change) : Prop where
  moves : ∀ moves, c.moves = some moves → .breaks ∉ moves
  sends : quiet = true → c.sendFails ≠ some true

theorem ScriptedLinks.Change.Fit.alike {quiet : Bool} {change : Change} (h : change.Fit quiet) (t : ScriptedLinks) :
    (conduct quiet).Alike t (change.apply t) := by
  refine ⟨fun _ => rfl, fun _ => rfl, fun ht => ⟨?_, ht.links, fun hq => ?_⟩⟩
  · cases hm : change.moves with
    | none => simpa [apply, hm] using ht.moves
    | some moves => simpa [apply, hm] using h.moves moves hm
  · cases hs : change.sendFails with
    | none => simpa [apply, hs] using ht.sends hq
    | some fails => simpa [apply, hs] using fun hfails => h.sends hq (hs.trans (congrArg some hfails))

/-- The operation is something that consumers may do. -/
def ClientOp.Allowed (quiet : Bool) (may : Use → Prop) : ClientOp → Prop
  | connect => may .connect
  | disconnect => may .disconnect
  | subscribe id => may (.subscribe id)
  | unsubscribe id => may (.unsubscribe (.own id))
  | report _ _ r => ∀ link, may (.report link 0 r)
  | script change => change.Fit quiet
  | last _ | stale .. | settings => True

/-- The action uses the bus, or does what consumers may do. -/
def Action.Proper (quiet : Bool) (may : Use → Prop) : Action ClientOp → Prop
  | other op => op.Allowed quiet may
  | on .. | off _ | count _ | clear | publish _ | fail | failForeign | offSelf => True

/-- What is done keeps to what consumers may do, and so do the handlers that are registered by it. The client is not
taken down. -/
def ScenarioOp.Allowed (quiet : Bool) (may : Use → Prop) : ScenarioOp → Prop
  | act action => action.Only (Action.Proper quiet may)
  | advance _ => True
  | takeDown => False

theorem Clock.mem_of_first? {ws : List Wait} {w : Wait} (h : first? ws = some w) : w ∈ ws := by
  induction ws generalizing w with
  | nil => exact absurd h (by simp [first?])
  | cons v rest ih =>
    unfold first? at h
    cases hrest : first? rest with
    | none =>
      simp only [hrest] at h
      rw [Option.some.inj h]
      exact List.mem_cons_self
    | some u =>
      simp only [hrest] at h
      split at h
      · rw [← Option.some.inj h]
        exact List.mem_cons_of_mem v (ih hrest)
      · rw [Option.some.inj h]
        exact List.mem_cons_self

theorem Clock.mem_of_next? {c : Clock} {target : Int} {w : Wait} (h : c.next? target = some w) : w ∈ c.waits :=
  mem_of_first? (Option.filter_eq_some_iff.mp h).1

namespace Scenario

open ScriptedLinks

variable {quiet : Bool} {may : Use → Prop} {emit emit' : Event → Step Scenario Unit}

/-- A link's reports go to the last attempt that it ever reported to, if to any. -/
theorem attempts_of_attempt? {link : Option Nat} {late : Bool} {s : ScriptedLinks} {attempt : Nat}
    (h : attempt? link late s = some attempt) :
    (attempts (link.getD (s.links.length - 1)) s)[0]? = some attempt := by
  obtain ⟨l, hl, hattempt⟩ := Option.bind_eq_some_iff.mp h
  have hhead : l.attempts.head? = some attempt := by
    cases late with
    | true => exact hattempt
    | false =>
      have hattached : l.attached = some attempt := hattempt
      rw [ScriptedLink.attempts, hattached]
      rfl
  rw [attempts, hl, ← List.head?_eq_getElem?]
  exact hhead

/-- A report to be acted on is acted on as by the callback that the link was given last. -/
theorem semantics_report (link : Option Nat) (late : Bool) (r : Report) :
    semantics emit (.report link late r) = (do
      let s ← get
      if (attempt? link late s.rest.outside).isSome ∧ s.rest.client.gone = false then
        (Use.report (link.getD (s.rest.outside.links.length - 1)) 0 r).perform (conduct quiet) emit
      pure .nothing) := by
  funext s
  show (semantics emit (.report link late r)).outcome s = Step.outcome _ s
  unfold semantics
  rw [Step.outcome_bind, Step.outcome_bind, Step.outcome_get]
  cases ha : attempt? link late s.rest.outside with
  | none => simp [ha]
  | some attempt =>
    by_cases hgone : s.rest.client.gone = true
    · simp [ha, hgone]
    · simp [ha, hgone, Use.perform, conduct, attempts_of_attempt? ha, Step.outcome_bind]

theorem uses_semantics {op : ClientOp} (h : op.Allowed quiet may) :
    Uses (conduct quiet) may emit (semantics emit op) := by
  cases op with
  | connect => exact .bind (.act .connect h) fun _ => .pure _
  | disconnect => exact .bind (.act .disconnect h) fun _ => .pure _
  | subscribe id => exact .bind (.act (.subscribe id) h) fun _ => .pure _
  | unsubscribe id => exact .bind (.act (.unsubscribe (.own id)) h) fun _ => .pure _
  | last id => exact .bind (.bind (.bind .look fun _ => .pure _) fun _ => .pure _) fun _ => .pure _
  | stale id maxAge =>
    refine .bind (.bind (.bind .look fun _ => .pure _) fun _ => ?_) fun _ => .pure _
    exact .bind (.bind .look fun _ => .pure _) fun _ => .pure _
  | settings => exact .bind (.bind .look fun _ => .pure _) fun _ => .pure _
  | report link late r =>
    rw [semantics_report]
    refine .bind .look fun s => ?_
    by_cases hacts : (attempt? link late s.rest.outside).isSome ∧ s.rest.client.gone = false
    · rw [if_pos hacts]
      exact .bind (.act _ (h _)) fun _ => .pure _
    · rw [if_neg hacts]
      exact .pure _
  | script change => exact .bind (.stir _ h.alike) fun _ => .pure _

/-- Whatever does not change what is laid down is done by the client. -/
theorem semantics_deals {op : ClientOp} (h : ∀ change, op ≠ .script change) :
    Deals network emit emit' (semantics emit op) (semantics emit' op) := by
  cases op with
  | connect => exact .bind (Client.connect_deals network emit emit') fun _ => .pure _
  | disconnect => exact .bind (Client.disconnect_deals network emit emit') fun _ => .pure _
  | subscribe id => exact .bind (Client.subscribe_deals network emit emit' id) fun _ => .pure _
  | unsubscribe id => exact .bind (Client.unsubscribe_deals network emit emit' (.own id)) fun _ => .pure _
  | last id => exact .bind (.bind .current fun _ => .pure _) fun _ => .pure _
  | stale id maxAge => exact .bind (.bind .current fun _ => .bind .wallClock fun _ => .pure _) fun _ => .pure _
  | settings => exact .bind .current fun _ => .pure _
  | report link late r =>
    refine .bind .look fun s => ?_
    cases attempt? link late s.rest.outside with
    | none => exact .pure _
    | some attempt => exact .ite (.bind (Client.receive_deals network emit emit' attempt r) fun _ => .pure _) (.pure _)
  | script change => exact absurd rfl (h change)

theorem agrees_semantics {K : Bus (Handler ClientOp) → Prop}
    (hemit : ∀ e, Step.Agrees (fun s => K s.bus) (emit e) (emit' e)) (op : ClientOp) :
    Step.Agrees (fun s => K s.bus) (semantics emit op) (semantics emit' op) := by
  by_cases hscript : ∃ change, op = .script change
  · obtain ⟨change, rfl⟩ := hscript
    exact .bind (Step.agrees_modify fun _ hs => hs) fun _ => (Step.preserves_pure _).agrees
  · exact (semantics_deals fun change hop => hscript ⟨change, hop⟩).agrees hemit

/-- What becomes of a scenario as things of some sort happen to it, one after another. -/
inductive Plays (ok : ScenarioOp → Prop) (s : Scenario) : Scenario → Prop
  | start : Plays ok s s
  | happens {t u : Scenario} {op : ScenarioOp} {depth : Nat} {r : Except Failure Reply} :
      Plays ok s t → ok op → (perform depth op).outcome t = some (r, u) → Plays ok s u

theorem Plays.mono {ok ok' : ScenarioOp → Prop} {s t : Scenario} (hok : ∀ op, ok op → ok' op) (h : Plays ok s t) :
    Plays ok' s t := by
  induction h with
  | start => exact .start
  | happens _ hop hx ih => exact ih.happens (hok _ hop) hx

/-- A client may come to this, and all handlers keep to what consumers may do. -/
structure Orderly (quiet : Bool) (may : Use → Prop) (s : Scenario) : Prop where
  reached : Reached (conduct quiet) may s
  staffed : s.bus.Staffed (Action.Proper quiet may)

variable {s t : Scenario} {r : Except Failure Reply}

section

variable [DecidablePred (ClientOp.Allowed quiet may)]

theorem agrees_within (emit emit' : Event → Step Scenario Unit) (op : ClientOp)
    (h : Action.Proper quiet may (.other op))
    (hemit : ∀ e, Step.Agrees (fun s => s.bus.Staffed (Action.Proper quiet may)) (emit e) (emit' e)) :
    Step.Agrees (fun s => s.bus.Staffed (Action.Proper quiet may)) (semantics emit op)
      (Action.within (ClientOp.Allowed quiet may) semantics emit' op) := by
  have hallowed : op.Allowed quiet may := h
  rw [Action.within, if_pos hallowed]
  exact agrees_semantics hemit op

theorem uses_within (op : ClientOp) :
    Uses (conduct quiet) may emit (Action.within (ClientOp.Allowed quiet may) semantics emit op) := by
  unfold Action.within
  by_cases h : op.Allowed quiet may
  · rw [if_pos h]
    exact uses_semantics h
  · rw [if_neg h]
    exact .pure _

theorem consumer_within (depth : Nat) : Consumer (conduct quiet) may
    (Action.emitter (Action.within (ClientOp.Allowed quiet may) semantics) depth) :=
  Action.consumer_emitter (fun _ op => uses_within op) depth

/-- A scenario publishes as a consumer does, as long as its handlers keep to what consumers may do. -/
theorem emit_agrees (depth : Nat) (e : Event) :
    Step.Agrees (fun s => s.bus.Staffed (Action.Proper quiet may)) (Scenario.emit depth e)
      (Action.emitter (Action.within (ClientOp.Allowed quiet may) semantics) depth e) :=
  Stage.agrees_publish (fun self _ ha => Action.agrees_perform agrees_within depth self ha) e

theorem act_agrees (depth : Nat) {action : Action ClientOp} (h : action.Only (Action.Proper quiet may)) :
    Step.Agrees (fun s => s.bus.Staffed (Action.Proper quiet may)) (perform depth (.act action))
      (action.take (Action.within (ClientOp.Allowed quiet may) semantics)
        (Action.perform (Action.within (ClientOp.Allowed quiet may) semantics) depth) none) :=
  Action.agrees_take agrees_within (fun self _ ha => Action.agrees_perform agrees_within depth self ha) none h

theorem uses_act (depth : Nat) (action : Action ClientOp) :
    Uses (conduct quiet) may (Action.emitter (Action.within (ClientOp.Allowed quiet may) semantics) depth)
      (action.take (Action.within (ClientOp.Allowed quiet may) semantics)
        (Action.perform (Action.within (ClientOp.Allowed quiet may) semantics) depth) none) :=
  Action.uses_take (fun _ op => uses_within op) none action

theorem Orderly.act {depth : Nat} {action : Action ClientOp} (hs : s.Orderly quiet may)
    (haction : action.Only (Action.Proper quiet may)) (h : (perform depth (.act action)).outcome s = some (r, t)) :
    t.Orderly quiet may := by
  have hagrees := act_agrees depth haction
  have hsame := hagrees.same s hs.staffed
  exact ⟨hs.reached.use (consumer_within depth) (uses_act depth action) (hsame.trans h),
    hagrees.keeps.left hs.staffed h⟩

/-- A wait that ends is one of the client's, and its end is heard by consumers. -/
theorem Orderly.fire {depth : Nat} {wait : Wait} {r : Except Failure Unit} (hs : s.Orderly quiet may)
    (hwait : wait ∈ s.rest.clock.waits)
    (h : (Client.fire network (Scenario.emit depth) wait).outcome
      { s with rest.clock := s.rest.clock.expire wait } = some (r, t)) : t.Orderly quiet may := by
  have hemit : ∀ e, Step.Agrees (fun s => s.bus.Staffed (Action.Proper quiet may)) (Scenario.emit depth e)
      (Action.emitter (Action.within (ClientOp.Allowed quiet may) semantics) depth e) := emit_agrees depth
  have hagrees := (Client.fire_deals network (Scenario.emit depth) _ wait).agrees hemit
  have hsame := hagrees.same { s with rest.clock := s.rest.clock.expire wait } hs.staffed
  refine ⟨hs.reached.lapse (consumer_within depth) (.due hwait) (hsame.trans h), ?_⟩
  exact hagrees.keeps.left (s := { s with rest.clock := s.rest.clock.expire wait }) hs.staffed h

theorem Orderly.passTo {depth fuel : Nat} {target : Int} {r : Except Failure Unit} (hs : s.Orderly quiet may)
    (h : (Client.place.passTo (fun _ => false) (Client.fire network (Scenario.emit depth)) target fuel).outcome s =
      some (r, t)) : t.Orderly quiet may := by
  induction fuel generalizing s with
  | zero => exact absurd h (by simp [ClockIn.passTo])
  | succ fuel ih =>
    simp only [ClockIn.passTo, Step.outcome_bind, Step.outcome_get, Bool.false_eq_true, if_false] at h
    cases hnext : s.rest.clock.next? target with
    | none =>
      have hnone : (Client.place.clock s).next? target = none := hnext
      simp only [hnone, Step.outcome_set, Option.some.injEq, Prod.mk.injEq] at h
      rw [← h.2]
      exact ⟨hs.reached.pass target, hs.staffed⟩
    | some wait =>
      have hsome : (Client.place.clock s).next? target = some wait := hnext
      simp only [hsome, Step.outcome_bind, Step.outcome_set] at h
      split at h
      · exact absurd h (by simp)
      next u hu => exact ih (hs.fire (Clock.mem_of_next? hnext) hu) h
      next hu =>
        obtain ⟨-, rfl⟩ := Prod.mk.inj (Option.some.inj h)
        exact hs.fire (Clock.mem_of_next? hnext) hu

end

theorem Orderly.perform {depth : Nat} {op : ScenarioOp} (hs : s.Orderly quiet may) (hop : op.Allowed quiet may)
    (h : (perform depth op).outcome s = some (r, t)) : t.Orderly quiet may := by
  classical
  cases op with
  | act action => exact hs.act hop h
  | advance ms =>
    simp only [Scenario.perform, Step.outcome_bind, Step.outcome_get] at h
    split at h
    · exact absurd h (by simp)
    next u hu =>
      obtain ⟨-, rfl⟩ := Prod.mk.inj (Option.some.inj h)
      exact hs.passTo hu
    next hu =>
      obtain ⟨-, rfl⟩ := Prod.mk.inj (Option.some.inj h)
      exact hs.passTo hu
  | takeDown => exact hop.elim

theorem staffed_start {client : Client} {epoch : Instant} {observed measured : Bool} {p : Action ClientOp → Prop} :
    (start client epoch observed measured).bus.Staffed p := by
  cases observed with
  | false => exact List.forall_mem_nil _
  | true =>
    have h : ∀ (kinds : List EventKind) (b : Bus (Handler ClientOp)), b.Staffed p →
        Bus.Staffed p (kinds.foldl (fun b k => (b.on k .observer).2) b) := by
      intro kinds
      induction kinds with
      | nil => exact fun b hb => hb
      | cons kind kinds ih => exact fun b hb => ih _ (hb.on kind trivial)
    exact h EventKind.all {} (List.forall_mem_nil _)

theorem Plays.orderly (hs : s.Orderly quiet may) (h : Plays (ScenarioOp.Allowed quiet may) s t) :
    t.Orderly quiet may := by
  induction h with
  | start => exact hs
  | happens _ hop hx ih => exact ih.perform hop hx

/-- Whatever becomes of a scenario with a new client, a client may come to: all that is known of clients at large, their
links and their consumers holds of it. -/
theorem reached_of_plays {settings : Settings} {client : Client} {epoch : Instant} {observed measured : Bool}
    (hclient : Client.create settings true = .ok client)
    (h : Plays (ScenarioOp.Allowed quiet may) (start client epoch observed measured) t) :
    Reached (conduct quiet) may t := by
  have hblank : (conduct quiet).Blank { measured } := conduct_blank (by simp) rfl fun _ => rfl
  have hstart : (start client epoch observed measured).Orderly quiet may :=
    ⟨.start _ [] epoch hclient hblank, staffed_start⟩
  exact (h.orderly hstart).reached

end Scenario

end QuoteFeed
