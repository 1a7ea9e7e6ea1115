import QuoteFeed.Proofs.Scenarios

/-!
What a client remembers is what can be seen of it. Where each effect on the world outside shows as what it is, and
consumers note an event before they act on it, the journal of a run tells the outward deeds of the history, all of
them, in order, and nothing else. The observers of a scenario note events in this way.
-/

namespace QuoteFeed

variable {β τ : Type} {net : Network τ}

/-- The deed that an entry of a journal shows. -/
def Entry.deed? : Entry → Option Deed
  | event e => some (.publishes e)
  | sample name value => some (.measures name value)
  | makeLink => some .asks
  | connectLink link _ => some (.dials link)
  | sendLink link frame => some (.sends link frame)
  | closeLink link => some (.closes link)
  | handled .. | call _ | status _ | message _ | error _ | output _ | log .. | ping _ | nothingPending => none

/-- The deeds that can be seen from outside, the last one first. -/
def World.outward (w : World τ) : List Deed := (w.history.map Moment.deed).filter Deed.isOutward

/-- The deeds that the journal shows, the last one first. -/
def Stage.shown {ρ : Type} (s : Stage β ρ) : List Deed := s.journal.filterMap Entry.deed?

/-- As long as the world outside is in good order, all that is done to it shows, and as what it is. -/
structure Network.Legible (net : Network τ) (good : τ → Prop) : Prop where
  shows : ∀ {α : Type} {d : Deed} {effect : Effect τ α}, net.Does d effect → ∀ t, good t →
    (effect t).2.1.filterMap Entry.deed? = [d] ∧ good (effect t).2.2
  attach : ∀ link attempt t, good t → good (net.attach link attempt t)
  detach : ∀ link t, good t → good (net.detach link t)

/-- The journal tells the history, on a bus of some sort and with the world outside in good order. -/
structure Faithful (K : Bus β → Prop) (good : τ → Prop) (s : Stage β (World τ)) : Prop where
  bus : K s.bus
  outside : good s.rest.outside
  told : s.shown = s.rest.outward

/-- Once an event is remembered, and nothing else has been since the journal was faithful, it is noted, and whatever
follows from it keeps the journal faithful. -/
def Noting (K : Bus β → Prop) (good : τ → Prop) (emit : Event → Step (Stage β (World τ)) Unit) : Prop :=
  ∀ e s, K s.bus → good s.rest.outside → s.rest.outward = .publishes e :: s.shown →
    (emit e).Ends s (fun _ t => Faithful K good t) fun _ t => Faithful K good t

theorem Network.Does.isOutward {α : Type} {d : Deed} {effect : Effect τ α} (h : net.Does d effect) :
    d.isOutward = true := by
  cases h <;> rfl

theorem World.outward_noted (w : World τ) {d : Deed} (h : d.isOutward = true) :
    (w.noted d).outward = d :: w.outward :=
  List.filter_cons_of_pos h

theorem World.outward_noted_of_not (w : World τ) {d : Deed} (h : d.isOutward = false) :
    (w.noted d).outward = w.outward :=
  List.filter_cons_of_neg (by rw [h]; exact Bool.false_ne_true)

section

variable {K : Bus β → Prop} {good : τ → Prop} {emit emit' : Event → Step (Stage β (World τ)) Unit}

/-- Whoever deals with consumers that note events keeps the journal faithful. -/
theorem Deals.faithful {α : Type} {x y : Step (Stage β (World τ)) α} (hnet : net.Legible good)
    (hemit : Noting K good emit) (h : Deals net emit emit' x y) : Step.Preserves (Faithful K good) x := by
  induction h with
  | pure a => exact Step.preserves_pure a
  | throw e => exact Step.preserves_throw e
  | bind _ _ ihx ihf => exact ihx.bind ihf
  | tryCatch _ _ ihx ihf => exact ihx.tryCatch ihf
  | look => exact fun s hs => Step.ends_get.mpr hs
  | alter f hf =>
    refine Step.preserves_modify fun s hs => ⟨hs.bus, ?_, ?_⟩
    · rw [(hf s.rest).2]
      exact hs.outside
    · rw [World.outward, (hf s.rest).1]
      exact hs.told
  | attach link attempt =>
    exact Step.preserves_modify fun s hs => ⟨hs.bus, hnet.attach link attempt _ hs.outside, hs.told⟩
  | detach link => exact Step.preserves_modify fun s hs => ⟨hs.bus, hnet.detach link _ hs.outside, hs.told⟩
  | remember hd =>
    exact Step.preserves_modify fun s hs => ⟨hs.bus, hs.outside, hs.told.trans (s.rest.outward_noted_of_not hd).symm⟩
  | does hd =>
    intro s hs
    obtain ⟨hshows, hgood⟩ := hnet.shows hd s.rest.outside hs.outside
    refine Client.ends_outside.mpr ⟨hs.bus, hgood, ?_⟩
    have hnoted := s.rest.outward_noted hd.isOutward
    rw [← hs.told] at hnoted
    rw [Stage.shown, List.filterMap_append, List.filterMap_reverse, hshows]
    exact hnoted.symm
  | tell e =>
    intro s hs
    refine Step.ends_bind.mpr (Client.ends_remember.mpr (hemit e _ hs.bus hs.outside ?_))
    have hpublishes : (Deed.publishes e).isOutward = true := rfl
    have hnoted := s.rest.outward_noted hpublishes
    rwa [← hs.told] at hnoted

end

namespace ScriptedLinks

/-- What is measured shows. -/
abbrev Measured (s : ScriptedLinks) : Prop := s.measured = true

theorem network_legible : network.Legible Measured where
  shows := by
    intro α d effect hd t ht
    cases hd with
    | asks => cases hm : t.making <;> simpa [network, create, hm, Entry.deed?] using ht
    | dials link endpoint => exact ⟨rfl, ht⟩
    | sends link frame => exact ⟨rfl, ht⟩
    | closes link => exact ⟨rfl, ht⟩
    | measures name value =>
      have hm : t.measured = true := ht
      simpa [network, hm, Entry.deed?] using ht
  attach _ _ _ ht := ht
  detach _ _ ht := ht

end ScriptedLinks

section

variable {ω : Type}

/-- An observer for each kind of event, and no other handlers. -/
def observers : Bus (Handler ω) := EventKind.all.foldl (fun b k => (b.on k .observer).2) {}

/-- The number of the observer of a kind. -/
def observerId (kind : EventKind) : Nat := EventKind.all.idxOf kind + 1

theorem observerId_le (kind : EventKind) : observerId kind ≤ EventKind.all.length := by
  cases kind <;> decide

theorem slots_observers :
    (observers : Bus (Handler ω)).slots = EventKind.all.map fun kind => ⟨observerId kind, kind, .observer⟩ := rfl

theorem of_mem_observers {slot : Slot (Handler ω)} (h : slot ∈ observers.slots) :
    slot.id ≤ EventKind.all.length ∧ slot.body = .observer := by
  rw [slots_observers] at h
  obtain ⟨kind, -, rfl⟩ := List.mem_map.mp h
  exact ⟨observerId_le kind, rfl⟩

theorem idsOf_observers (kind : EventKind) : (observers : Bus (Handler ω)).idsOf kind = [observerId kind] := by
  cases kind <;> rfl

theorem find?_observers (kind : EventKind) :
    (observers : Bus (Handler ω)).find? (observerId kind) = some ⟨observerId kind, kind, .observer⟩ := by
  cases kind <;> rfl

/-- The action leaves the observers alone, and publishes nothing by itself. -/
def Action.Discreet : Action ω → Prop
  | publish _ | clear => False
  | off id => EventKind.all.length < id
  | on .. | count _ | fail | failForeign | offSelf | other _ => True

/-- The observers come first, and all that the handlers behind them do is discreet. -/
structure Bus.Observed (b : Bus (Handler ω)) : Prop where
  slots : ∃ others, b.slots = observers.slots ++ others ∧ ∀ slot ∈ others, EventKind.all.length < slot.id ∧
    ∃ actions times, slot.body = .script actions times ∧ ∀ a ∈ actions, a.Only Action.Discreet
  next : EventKind.all.length < b.nextId

namespace Bus.Observed

variable {b : Bus (Handler ω)}

theorem start : (observers : Bus (Handler ω)).Observed :=
  ⟨⟨[], (List.append_nil _).symm, List.forall_mem_nil _⟩, Nat.lt_succ_self 10⟩

theorem on (h : b.Observed) (kind : EventKind) {actions : List (Action ω)} (times : Option Nat)
    (hactions : ∀ a ∈ actions, a.Only Action.Discreet) : (b.on kind (.script actions times)).2.Observed := by
  obtain ⟨others, hslots, hothers⟩ := h.slots
  refine ⟨⟨others ++ [⟨b.nextId, kind, .script actions times⟩], ?_, ?_⟩, Nat.lt_succ_of_lt h.next⟩
  · rw [Bus.on, hslots, List.append_assoc]
  · intro slot hslot
    rcases List.mem_append.mp hslot with hslot | hslot
    · exact hothers slot hslot
    · rw [List.mem_singleton.mp hslot]
      exact ⟨h.next, actions, times, rfl, hactions⟩

theorem off (h : b.Observed) {id : Nat} (hid : EventKind.all.length < id) : (b.off id).2.Observed := by
  obtain ⟨others, hslots, hothers⟩ := h.slots
  have hkept : (observers.slots.filter fun s : Slot (Handler ω) => s.id ≠ id) = observers.slots := by
    refine List.filter_eq_self.mpr fun slot hslot => decide_eq_true ?_
    exact Nat.ne_of_lt (Nat.lt_of_le_of_lt (of_mem_observers hslot).1 hid)
  refine ⟨⟨others.filter fun s => s.id ≠ id, ?_, fun slot hslot => hothers slot (List.mem_filter.mp hslot).1⟩, h.next⟩
  rw [Bus.off, hslots, List.filter_append, hkept]

theorem setBody (h : b.Observed) {id : Nat} (hid : EventKind.all.length < id) {actions : List (Action ω)}
    (times : Option Nat) (hactions : ∀ a ∈ actions, a.Only Action.Discreet) :
    (b.setBody id (.script actions times)).Observed := by
  obtain ⟨others, hslots, hothers⟩ := h.slots
  have hkept : (observers.slots.map fun s : Slot (Handler ω) =>
      if s.id = id then { s with body := .script actions times } else s) = observers.slots := by
    refine (List.map_congr_left fun slot hslot => ?_).trans (List.map_id _)
    exact if_neg (Nat.ne_of_lt (Nat.lt_of_le_of_lt (of_mem_observers hslot).1 hid))
  refine ⟨⟨others.map fun s => if s.id = id then { s with body := .script actions times } else s, ?_, ?_⟩, h.next⟩
  · rw [Bus.setBody, hslots, List.map_append, hkept]
  · intro slot hslot
    obtain ⟨old, hold, rfl⟩ := List.mem_map.mp hslot
    by_cases hsame : old.id = id
    · rw [if_pos hsame]
      exact ⟨(hothers old hold).1, actions, times, rfl, hactions⟩
    · rw [if_neg hsame]
      exact hothers old hold

/-- A call leaves an observer as it was. -/
theorem setBody_observer (h : b.Observed) {id : Nat} (hid : id ≤ EventKind.all.length) :
    b.setBody id .observer = b := by
  obtain ⟨others, hslots, hothers⟩ := h.slots
  have hsame : b.slots.map (fun s => if s.id = id then { s with body := .observer } else s) = b.slots := by
    refine (List.map_congr_left fun slot hslot => ?_).trans (List.map_id _)
    rw [hslots] at hslot
    rcases List.mem_append.mp hslot with hslot | hslot
    · have hbody := (of_mem_observers hslot).2
      rw [← hbody]
      exact ite_self slot
    · exact if_neg (Nat.ne_of_gt (Nat.lt_of_le_of_lt hid (hothers slot hslot).1))
  rw [Bus.setBody, hsame]

theorem find?_observer (h : b.Observed) (kind : EventKind) :
    b.find? (observerId kind) = some ⟨observerId kind, kind, .observer⟩ := by
  obtain ⟨others, hslots, -⟩ := h.slots
  have hfind := find?_observers (ω := ω) kind
  unfold Bus.find? at hfind ⊢
  rw [hslots, List.find?_append, hfind]
  rfl

theorem find?_other (h : b.Observed) {id : Nat} (hid : EventKind.all.length < id) {slot : Slot (Handler ω)}
    (hfind : b.find? id = some slot) :
    slot.id = id ∧ ∃ actions times, slot.body = .script actions times ∧ ∀ a ∈ actions, a.Only Action.Discreet := by
  obtain ⟨others, hslots, hothers⟩ := h.slots
  have hsame : slot.id = id := by simpa using List.find?_some hfind
  have hmem : slot ∈ b.slots := List.mem_of_find?_eq_some hfind
  rw [hslots] at hmem
  rcases List.mem_append.mp hmem with hmem | hmem
  · exact absurd (of_mem_observers hmem).1 (Nat.not_le_of_lt (hsame ▸ hid))
  · exact ⟨hsame, (hothers slot hmem).2⟩

theorem idsOf (h : b.Observed) (kind : EventKind) :
    ∃ others, b.idsOf kind = observerId kind :: others ∧ ∀ id ∈ others, EventKind.all.length < id := by
  obtain ⟨others, hslots, hothers⟩ := h.slots
  refine ⟨(others.filter fun s => s.kind = kind).map Slot.id, ?_, ?_⟩
  · have hfirst := idsOf_observers (ω := ω) kind
    unfold Bus.idsOf at hfirst ⊢
    rw [hslots, List.filter_append, List.map_append, hfirst]
    rfl
  · intro id hid
    obtain ⟨slot, hslot, rfl⟩ := List.mem_map.mp hid
    exact (hothers slot (List.mem_filter.mp hslot).1).1

end Bus.Observed

end

section

variable {ω : Type} {good : τ → Prop} {act : Nat → Action ω → Step (Stage (Handler ω) (World τ)) Unit}

theorem Faithful.note {s : Stage (Handler ω) (World τ)} (h : Faithful Bus.Observed good s) {entry : Entry}
    (hentry : entry.deed? = none) : Faithful Bus.Observed good { s with journal := entry :: s.journal } :=
  ⟨h.bus, h.outside, (List.filterMap_cons_none hentry).trans h.told⟩

theorem Faithful.onBus {s : Stage (Handler ω) (World τ)} (h : Faithful Bus.Observed good s) {bus : Bus (Handler ω)}
    (hbus : bus.Observed) : Faithful Bus.Observed good { s with bus } :=
  ⟨hbus, h.outside, h.told⟩

theorem Action.faithful_take {semantics : Action.Semantics ω (World τ)}
    (hsemantics : ∀ o, Step.Preserves (Faithful Bus.Observed good) (semantics (Stage.publish (Handler.run act)) o))
    {self : Option Nat} (hself : ∀ id, self = some id → EventKind.all.length < id) {action : Action ω}
    (h : action.Only Action.Discreet) :
    Step.Preserves (Faithful Bus.Observed good) (take semantics act self action) := by
  cases action with
  | on kind actions times =>
    refine Step.preserves_look fun s hs => ?_
    have hon := hs.bus.on kind times h.registered
    exact Step.ends_bind.mpr (Step.ends_modify.mpr (Step.ends_pure.mpr (hs.onBus hon)))
  | off id =>
    have hid : EventKind.all.length < id := h.self
    refine Step.preserves_look fun s hs => ?_
    exact Step.ends_bind.mpr (Step.ends_modify.mpr (Step.ends_pure.mpr (hs.onBus (hs.bus.off hid))))
  | count kind => exact Step.preserves_look fun s hs => Step.ends_pure.mpr hs
  | clear => exact (h.self : False).elim
  | publish e => exact (h.self : False).elim
  | fail => exact Step.preserves_throw _
  | failForeign => exact Step.preserves_throw _
  | offSelf =>
    cases self with
    | none => exact Step.preserves_pure _
    | some id =>
      have hid : EventKind.all.length < id := hself id rfl
      exact .bind (Step.preserves_modify fun s hs => hs.onBus (hs.bus.off hid)) fun _ => Step.preserves_pure _
  | other o => exact hsemantics o

variable (hact : ∀ self a, EventKind.all.length < self → a.Only Action.Discreet →
  Step.Preserves (Faithful Bus.Observed good) (act self a))
include hact

/-- Those who come after the observers note calls, but no events. -/
theorem Handler.faithful_run {slot : Slot (Handler ω)} (hid : EventKind.all.length < slot.id)
    {actions : List (Action ω)} {times : Option Nat} (hbody : slot.body = .script actions times)
    (hactions : ∀ a ∈ actions, a.Only Action.Discreet) (e : Event) :
    Step.Preserves (Faithful Bus.Observed good) (run act slot e) := by
  have hentry : (entry slot e).deed? = none := by
    rw [entry, hbody]
    rfl
  have honly : (script actions times).Only Action.Discreet := hactions
  refine .bind (Step.preserves_modify fun _ ht => ht.note hentry) fun _ => ?_
  rw [hbody]
  refine .bind (Step.preserves_modify fun _ ht => ht.onBus (ht.bus.setBody hid _ hactions)) fun _ => ?_
  exact (Step.agrees_forM fun a ha => (hact slot.id a hid (honly.actionsOfCall a ha)).agrees).keeps

theorem Stage.faithful_deliver (e : Event) {ids : List Nat} (hids : ∀ id ∈ ids, EventKind.all.length < id) :
    Step.Preserves (Faithful Bus.Observed good) (deliver (Handler.run act) e ids) := by
  induction ids with
  | nil => exact Step.preserves_pure ()
  | cons id ids ih =>
    have hid : EventKind.all.length < id := hids id List.mem_cons_self
    have hrest := ih fun id hid => hids id (List.mem_cons_of_mem _ hid)
    refine Step.preserves_look fun s hs => ?_
    cases hfind : s.bus.find? id with
    | none => exact hrest s hs
    | some slot =>
      obtain ⟨rfl, actions, times, hbody, hactions⟩ := hs.bus.find?_other hid hfind
      have hcall := Handler.faithful_run hact hid hbody hactions e
      exact (hcall.tryCatch fun _ => Step.preserves_pure ()).bind (fun _ => hrest) s hs

/-- The observer of the kind comes first, so that the event is noted before anything follows from it. -/
theorem Stage.noting_publish : Noting Bus.Observed good (publish (Handler.run act)) := by
  intro e s hbus hgood htold
  obtain ⟨others, hids, hothers⟩ := hbus.idsOf e.kind
  have hnoted : Faithful Bus.Observed good { s with journal := .event e :: s.journal } := ⟨hbus, hgood, htold.symm⟩
  have hobserved : (s.bus.setBody (observerId e.kind) .observer).Observed := by
    rw [hbus.setBody_observer (observerId_le e.kind)]
    exact hbus
  refine Step.ends_bind.mpr (Step.ends_get.mpr ?_)
  rw [hids]
  refine Step.ends_bind.mpr (Step.ends_get.mpr ?_)
  rw [hbus.find?_observer e.kind]
  refine Step.ends_bind.mpr (Step.ends_ignoreFailure.mpr ?_)
  refine Step.ends_bind.mpr (Step.ends_modify.mpr (Step.ends_bind.mpr (Step.ends_modify.mpr (Step.ends_pure.mpr ?_))))
  exact faithful_deliver hact e hothers _ (hnoted.onBus hobserved)

end

theorem ClockIn.preserves_passTo {σ : Type} {P : σ → Prop} {place : ClockIn σ} {stopped : σ → Bool}
    {fire : Wait → Step σ Unit} {target : Int} (hclock : ∀ c s, P s → P (place.withClock c s))
    (hfire : ∀ wait, Step.Preserves P (fire wait)) (fuel : Nat) :
    Step.Preserves P (place.passTo stopped fire target fuel) := by
  induction fuel with
  | zero => exact Step.preserves_exhausted
  | succ fuel ih =>
    refine Step.preserves_look fun s hs => Step.ends_ite.mpr ⟨fun _ => Step.ends_pure.mpr hs, fun _ => ?_⟩
    cases (place.clock s).next? target with
    | none => exact Step.ends_set.mpr (hclock _ s hs)
    | some wait =>
      have hlater := (hfire wait).bind fun _ => ih
      exact Step.ends_bind.mpr (Step.ends_set.mpr (hlater _ (hclock _ s hs)))

/-- Observers are left alone, and all that is published the client publishes. -/
def ScenarioOp.Discreet : ScenarioOp → Prop
  | act action => action.Only Action.Discreet
  | advance _ | takeDown => True

namespace Scenario

open ScriptedLinks

theorem faithful_semantics {emit : Event → Step Scenario Unit} (hemit : Noting Bus.Observed Measured emit)
    (op : ClientOp) : Step.Preserves (Faithful Bus.Observed Measured) (semantics emit op) := by
  by_cases hscript : ∃ change, op = .script change
  · obtain ⟨change, rfl⟩ := hscript
    exact .bind (Step.preserves_modify fun s hs => ⟨hs.bus, hs.outside, hs.told⟩) fun _ => Step.preserves_pure _
  · have hdeals : Deals network emit emit (semantics emit op) (semantics emit op) :=
      semantics_deals fun change hop => hscript ⟨change, hop⟩
    exact hdeals.faithful network_legible hemit

theorem faithful_act (depth self : Nat) (a : Action ClientOp) (hself : EventKind.all.length < self)
    (h : a.Only Action.Discreet) :
    Step.Preserves (Faithful Bus.Observed Measured) (Action.perform semantics depth self a) := by
  induction depth generalizing self a with
  | zero => exact Step.preserves_exhausted
  | succ depth ih =>
    have hemit := Stage.noting_publish ih
    have hlater : ∀ id, some self = some id → EventKind.all.length < id := by
      intro id hid
      rwa [← Option.some.inj hid]
    exact .bind (Action.faithful_take (faithful_semantics hemit) hlater h) fun _ => Step.preserves_pure ()

theorem faithful_perform (depth : Nat) {op : ScenarioOp} (h : op.Discreet) :
    Step.Preserves (Faithful Bus.Observed Measured) (perform depth op) := by
  have hemit := Stage.noting_publish (faithful_act depth)
  cases op with
  | act action =>
    have hself : ∀ id, (none : Option Nat) = some id → EventKind.all.length < id := by
      intro id hid
      cases hid
    exact Action.faithful_take (faithful_semantics hemit) hself h
  | advance ms =>
    have hfire := fun wait => (Client.fire_deals network (emit depth) (emit depth) wait).faithful network_legible hemit
    refine Step.preserves_look fun s hs => Step.Preserves.bind ?_ (fun _ => Step.preserves_pure _) s hs
    exact ClockIn.preserves_passTo (fun _ _ ht => ⟨ht.bus, ht.outside, ht.told⟩) hfire _
  | takeDown =>
    have hdown := (Client.takeDown_deals network (emit depth) (emit depth)).faithful network_legible hemit
    exact hdown.bind fun _ => Step.preserves_pure _

/-- The journal of an observed scenario tells all that its client does and publishes, in order, and nothing else. -/
theorem shown_of_plays {client : Client} {epoch : Instant} {t : Scenario}
    (h : Plays ScenarioOp.Discreet (start client epoch true true) t) : t.shown = t.rest.outward := by
  have hfaithful : Faithful Bus.Observed Measured t := by
    induction h with
    | start => exact ⟨.start, rfl, rfl⟩
    | happens _ hop hx ih => exact (faithful_perform _ hop).left ih hx
  exact hfaithful.told

/-- What is known of the history of a client that has been reached is known of what an observed scenario shows. -/
theorem shown_of_reached {quiet : Bool} {may : Use → Prop} {settings : Settings} {client : Client} {epoch : Instant}
    {t : Scenario} (hclient : Client.create settings true = .ok client)
    (h : Plays (fun op => op.Allowed quiet may ∧ op.Discreet) (start client epoch true true) t) :
    Reached (conduct quiet) may t ∧ t.shown = t.rest.outward :=
  ⟨reached_of_plays hclient (h.mono fun _ => And.left), shown_of_plays (h.mono fun _ => And.right)⟩

end Scenario

end QuoteFeed
