import QuoteFeed.Proofs.Delivery
import QuoteFeed.Proofs.Shelves
import Mathlib.Data.List.Sort

/-!
Who is registered on a bus at any moment of its life, also while an event is delivered: who has been registered and not
removed since, under numbers that are handed out once, in the order of registration.
-/

namespace QuoteFeed

namespace BusDeed

instance decidableStanding (id : Nat) (kind : EventKind) : (deeds : List BusDeed) → Decidable (Standing id kind deeds)
  | [] => isFalse fun ⟨later, _, h, _⟩ => by cases later <;> cases h
  | _ :: rest =>
    have := decidableStanding id kind rest
    decidable_of_iff _ standing_cons.symm

/-- The numbers of those who have been registered for a kind and not removed since, the first one registered first. -/
def standing (kind : EventKind) (deeds : List BusDeed) : List Nat :=
  ((registered deeds).filter fun key => key.2 = kind ∧ Standing key.1 kind deeds).map Prod.fst

variable {id : Nat} {kind : EventKind} {deeds : List BusDeed}

theorem mem_standing : id ∈ standing kind deeds ↔ Standing id kind deeds := by
  unfold standing
  simp only [List.mem_map, List.mem_filter, decide_eq_true_eq]
  constructor
  · rintro ⟨key, ⟨-, -, hstanding⟩, rfl⟩
    exact hstanding
  · intro hstanding
    have hon : on id kind ∈ deeds := by
      obtain ⟨later, earlier, rfl, -⟩ := hstanding
      exact List.mem_append_right _ List.mem_cons_self
    exact ⟨(id, kind), ⟨mem_registered hon, rfl, hstanding⟩, rfl⟩

end BusDeed

/-- The handlers of a bus after some deeds, and what shelves keep of them. -/
structure Bus.Enrols {β : Type} (life : List BusDeed) (b : Bus β) (s : Shelves) : Prop where
  /-- Numbers are handed out in increasing order, for whatever kind and whatever has been removed. -/
  handed_out : ((BusDeed.registered life).map Prod.fst).Pairwise (· < ·)
  fresh : ∀ kind body, ∀ id ∈ (BusDeed.registered life).map Prod.fst, id < (b.on kind body).1
  increasing : ∀ kind, (b.idsOf kind).Pairwise (· < ·)
  listed : ∀ kind, b.idsOf kind = BusDeed.standing kind life
  apart : ∀ kind other id, id ∈ b.idsOf kind → id ∈ b.idsOf other → kind = other
  /-- Shelves hold the same, and a slot has its flag just in case it is on a shelf. -/
  shelved : ∀ kind, s.ids kind = b.idsOf kind
  flagged : ∀ place, Shelves.activeAt s.slots place = true ↔ ∃ kind, place ∈ s.places kind
  off_iff : ∀ id, (b.off id).1 = true ↔ ∃ kind, BusDeed.Standing id kind life
  off_shelved : ∀ id, (s.off id).1 = (b.off id).1
  off_rest : ∀ id kind, (b.off id).2.idsOf kind = (b.idsOf kind).filter fun other => other ≠ id
  counted : ∀ kind, b.count kind = (BusDeed.standing kind life).length

namespace Bus

variable {β : Type} {b : Bus β} {life : List BusDeed} {id : Nat} {kind : EventKind}

theorem Becomes.idsOf_eq (h : Becomes {} life b) (kind : EventKind) : b.idsOf kind = BusDeed.standing kind life := by
  have hstanding : (BusDeed.standing kind life).Pairwise (· < ·) :=
    h.handed_out.sublist (List.filter_sublist.map Prod.fst)
  refine (h.increasing kind).eq_of_mem_iff hstanding fun id => ?_
  rw [h.mem_idsOf, BusDeed.mem_standing]

theorem Becomes.enrols (h : Becomes {} life b) : b.Enrols life (Shelves.after life) where
  handed_out := h.handed_out
  fresh kind body id hid := by
    obtain ⟨key, hkey, rfl⟩ := List.mem_map.mp hid
    exact (h.registered_lt.2.1 key hkey).2
  increasing := h.increasing
  listed := h.idsOf_eq
  apart kind other id hkind hother := h.kind_unique (Bus.mem_idsOf.mp hkind) (Bus.mem_idsOf.mp hother)
  shelved kind := (Shelves.shows_after h).ids h
  flagged := (Shelves.shows_after h).active
  off_iff id := by simp only [Bus.off_iff, h.mem_idsOf]
  off_shelved id := ((Shelves.shows_after h).off h id).1
  off_rest id kind := idsOf_off
  counted kind := congrArg List.length (h.idsOf_eq kind)

end Bus

namespace BusSession

/-- What an action of a session answers after some deeds, and what it does with the handlers, the last deed first. A
publication may do anything with them, through the handlers it calls. -/
inductive Answers (life : List BusDeed) : Action Empty → Except Failure Reply → List BusDeed → Prop
  | on {kind : EventKind} {actions : List (Action Empty)} {times : Option Nat} {id : Nat} :
      (∀ earlier ∈ (BusDeed.registered life).map Prod.fst, earlier < id) →
      Answers life (.on kind actions times) (.ok (.id id)) [.on id kind]
  | off {id : Nat} {wasThere : Bool} : (wasThere = true ↔ ∃ kind, BusDeed.Standing id kind life) →
      Answers life (.off id) (.ok (.flag wasThere)) [.off id]
  | count {kind : EventKind} : Answers life (.count kind) (.ok (.count (BusDeed.standing kind life).length)) []
  | clear : Answers life .clear (.ok .nothing) [.clear]
  | publish {e : Event} {deeds : List BusDeed} : Answers life (.publish e) (.ok .nothing) deeds
  | fail : Answers life .fail (.error .handler) []
  | failForeign : Answers life .failForeign (.error .foreign) []
  | offSelf : Answers life .offSelf (.ok .nothing) []

variable {life : List BusDeed} {s t : BusSession} {depth : Nat} {action : Action Empty} {r : Except Failure Reply}

theorem answers_of_perform (hlife : Bus.Becomes {} life s.bus)
    (h : (BusSession.perform depth action).outcome s = some (r, t)) :
    ∃ deeds, s.bus.Becomes deeds t.bus ∧ Answers life action r deeds := by
  have henrols := hlife.enrols
  cases action with
  | on kind actions times =>
    obtain ⟨rfl, rfl⟩ := Prod.mk.inj (Option.some.inj h)
    exact ⟨_, .on kind _ .refl, .on (henrols.fresh kind (.script actions times))⟩
  | off id =>
    obtain ⟨rfl, rfl⟩ := Prod.mk.inj (Option.some.inj h)
    exact ⟨_, .off id .refl, .off (henrols.off_iff id)⟩
  | count kind =>
    obtain ⟨rfl, rfl⟩ := Prod.mk.inj (Option.some.inj h)
    refine ⟨[], .refl, ?_⟩
    rw [henrols.counted]
    exact .count
  | clear =>
    obtain ⟨rfl, rfl⟩ := Prod.mk.inj (Option.some.inj h)
    exact ⟨_, .clear .refl, .clear⟩
  | publish e =>
    rw [perform_publish, Step.outcome_bind] at h
    cases hx : (Stage.publish (handlers depth) e).outcome s with
    | none =>
      rw [hx] at h
      cases h
    | some p =>
      obtain ⟨x, u⟩ := p
      obtain ⟨rfl, called, done, hdelivers⟩ := Stage.delivers_of_publish hlife (usesBus_handlers depth) hx
      rw [hx] at h
      obtain ⟨rfl, rfl⟩ := Prod.mk.inj (Option.some.inj h)
      exact ⟨done, hdelivers.becomes, .publish⟩
  | fail =>
    obtain ⟨rfl, rfl⟩ := Prod.mk.inj (Option.some.inj h)
    exact ⟨[], .refl, .fail⟩
  | failForeign =>
    obtain ⟨rfl, rfl⟩ := Prod.mk.inj (Option.some.inj h)
    exact ⟨[], .refl, .failForeign⟩
  | offSelf =>
    obtain ⟨rfl, rfl⟩ := Prod.mk.inj (Option.some.inj h)
    exact ⟨[], .refl, .offSelf⟩
  | other o => exact o.elim

/-- Performs some actions one after the other, whether they fail or not. -/
def performAll (depth : Nat) (actions : List (Action Empty)) : Step BusSession Unit :=
  actions.forM fun action => Step.ignoreFailure (do let _ ← BusSession.perform depth action)

/-- Whatever is performed in a session, its bus is what has become of an empty one. -/
theorem becomes_of_performAll {actions : List (Action Empty)} {x : Except Failure Unit}
    (h : (performAll depth actions).outcome { rest := () } = some (x, t)) : ∃ life, Bus.Becomes {} life t.bus := by
  have hperform : ∀ action, Stage.UsesBus (BusSession.perform depth action) :=
    Action.usesBus_take (Action.usesBus_perform (fun _ o => o.elim) depth) (fun _ o => o.elim) none
  have hall : Stage.UsesBus (performAll depth actions) := fun b =>
    Step.preserves_forM fun action =>
      ((hperform action b).bind fun _ => Step.preserves_pure _).tryCatch fun _ => Step.preserves_pure _
  exact hall.continues h

end BusSession

namespace Stage

/-- Whatever is done with the handlers of a bus: their numbers are never handed out twice, those of a kind are in the
order of registration and have all been registered and not removed since, no number is registered twice, and a handler
is removed just in case it is registered, without any other. Shelves hold the same, and the flags of their slots tell
who is on them. It is so when an event is being delivered, at each turn and to whatever handlers, and when it has been
delivered; then a slot that was on a shelf when the delivery began has its flag as long as the bus finds its number.
It is so in every session, and what the session answers follows from what has been done. -/
theorem enrols_throughout {β ρ : Type} :
    (∀ life (b : Bus β), Bus.Becomes {} life b → b.Enrols life (Shelves.after life)) ∧
    (∀ (run : Slot β → Event → Step (Stage β ρ) Unit) e s life turns called done t, Bus.Becomes {} life s.bus →
      Delivers run e s turns called done t → Bus.Becomes {} (done ++ life) t.bus ∧
        ∀ kind place, place ∈ (Shelves.after life).places kind → ∃ id, (Shelves.after life).idAt? place = some id ∧
          (Shelves.after (done ++ life)).idAt? place = some id ∧
          Shelves.activeAt (Shelves.after (done ++ life)).slots place = (t.bus.find? id).isSome) ∧
    (∀ (run : Slot β → Event → Step (Stage β ρ) Unit) e s life t r, Bus.Becomes {} life s.bus →
      (∀ slot e, UsesBus (run slot e)) → (publish run e).outcome s = some (r, t) →
        r = .ok () ∧ ∃ called done, Delivers run e s (s.bus.idsOf e.kind) called done t) ∧
    (∀ depth actions x (t : BusSession), (BusSession.performAll depth actions).outcome { rest := () } = some (x, t) →
      ∃ life, Bus.Becomes {} life t.bus) ∧
    ∀ depth life action r (s t : BusSession), Bus.Becomes {} life s.bus →
      (BusSession.perform depth action).outcome s = some (r, t) →
        ∃ deeds, s.bus.Becomes deeds t.bus ∧ BusSession.Answers life action r deeds := by
  refine ⟨fun life b h => h.enrols, fun run e s life turns called done t hlife h => ?_,
    fun run e s life t r hlife hrun h => delivers_of_publish hlife hrun h,
    fun depth actions x t h => BusSession.becomes_of_performAll h,
    fun depth life action r s t hlife h => BusSession.answers_of_perform hlife h⟩
  exact ⟨hlife.trans h.becomes, fun kind place hplace => Shelves.turn_after hlife h.becomes hplace⟩

/-- Two handlers of one kind, the first of which removes the second. -/
def pair : Bus (Handler Empty) :=
  (((({} : Bus (Handler Empty)).on .error (.script [.off 2] none)).2).on .error (.script [] none)).2

def pairLife : List BusDeed := [.on 2 .error, .on 1 .error]

theorem pair_enrols : (Bus.Becomes {} pairLife pair ∧ pair.Enrols pairLife (Shelves.after pairLife)) ∧
    (∃ t called done,
      (publish (BusSession.handlers 3) (.error [])).outcome { bus := pair, rest := () } = some (.ok (), t) ∧
      Delivers (BusSession.handlers 3) (.error []) { bus := pair, rest := () } [1, 2] called done t ∧
      Bus.Becomes {} (done ++ pairLife) t.bus ∧ t.bus.idsOf .error = [1] ∧ 1 ∈ (Shelves.after pairLife).places .error ∧
      Shelves.activeAt (Shelves.after (done ++ pairLife)).slots 1 = false) ∧
    (∃ t life,
      (BusSession.performAll 3 [.on .error [] none, .clear, .off 1]).outcome { rest := () } = some (.ok (), t) ∧
      Bus.Becomes {} life t.bus) ∧
    ∃ (t : BusSession) (deeds : List BusDeed),
      (BusSession.perform 3 (.off 2)).outcome { bus := pair, rest := () } = some (.ok (.flag true), t) ∧
        BusSession.Answers pairLife (.off 2) (.ok (.flag true)) deeds := by
  obtain ⟨hlives, hturns, hends, hsessions, hanswers⟩ := enrols_throughout (β := Handler Empty) (ρ := Unit)
  have hlife : Bus.Becomes {} pairLife pair := .on _ _ (.on _ _ .refl)
  have hplace : 1 ∈ (Shelves.after pairLife).places .error := by decide
  have hx : (publish (BusSession.handlers 3) (.error [])).outcome { bus := pair, rest := () } = some (.ok (), _) := rfl
  have hsession : (BusSession.performAll 3 [.on .error [] none, .clear, .off 1]).outcome { rest := () } =
      some (.ok (), _) := rfl
  have hoff : (BusSession.perform 3 (.off 2)).outcome { bus := pair, rest := () } = some (.ok (.flag true), _) := rfl
  obtain ⟨-, called, done, hdelivers⟩ := hends _ _ _ _ _ _ hlife (BusSession.usesBus_handlers 3) hx
  obtain ⟨hbecomes, hflags⟩ := hturns _ _ _ _ _ _ _ _ hlife hdelivers
  obtain ⟨id, hid, -, hflag⟩ := hflags .error 1 hplace
  obtain rfl : 2 = id := Option.some.inj hid
  obtain ⟨life, hbus⟩ := hsessions _ _ _ _ hsession
  obtain ⟨deeds, -, hanswer⟩ := hanswers _ _ _ _ _ _ hlife hoff
  exact ⟨⟨hlife, hlives _ _ hlife⟩, ⟨_, called, done, hx, hdelivers, hbecomes, rfl, hplace, hflag⟩,
    ⟨_, life, hsession, hbus⟩, _, deeds, hoff, hanswer⟩

end Stage

end QuoteFeed
