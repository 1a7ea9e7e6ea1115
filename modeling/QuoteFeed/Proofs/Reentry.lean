import QuoteFeed.Proofs.Lifecycle

/-!
The states that a client is seen in: between any two things that are done with it, as before, but
also from within, by the consumers that are heard while something is being done, however deep they
are nested. A discipline holds in all of them.
-/

namespace QuoteFeed

variable {β τ : Type} {net : Network τ}

/-- The second way to publish is the first one, but for a run that is broken off when something is
to be published in a given state. A client recovers from no such failure, so that the run ends in
this state. -/
structure BreaksOff (u : Stage β (World τ)) (emit emit' : Event → Step (Stage β (World τ)) Unit) : Prop where
  elsewhere : ∀ e s, s ≠ u → (emit' e).outcome s = (emit e).outcome s
  here : ∀ e, (emit' e).outcome u = some (.error .foreign, u)

/-- The states that the user of a client, or a consumer at any depth, finds the client in. -/
inductive Seen (c : Conduct net) (may : Use → Prop) : Stage β (World τ) → Prop
  | between {s : Stage β (World τ)} : Reached c may s → Seen c may s
  /-- A consumer has done something. -/
  | acting {α : Type} {s t : Stage β (World τ)} {emit : Event → Step (Stage β (World τ)) Unit}
      {x : Step (Stage β (World τ)) α} {r : Except Failure α} :
      Seen c may s → Consumer c may emit → Uses c may emit x → x.outcome s = some (r, t) → Seen c may t
  /-- Consumers are to hear something in the course of a use. -/
  | during {s u : Stage β (World τ)} {emit emit' : Event → Step (Stage β (World τ)) Unit} {op : Use} :
      Seen c may s → Consumer c may emit → BreaksOff u emit emit' → may op →
      (op.perform c emit').outcome s = some (.error .foreign, u) → Seen c may u
  /-- Consumers are to hear something in the course of what the end of a wait sets off. -/
  | ringing {s u : Stage β (World τ)} {emit emit' : Event → Step (Stage β (World τ)) Unit} {v : Wait} {w : World τ} :
      Reached c may s → Consumer c may emit → BreaksOff u emit emit' → Lapses s.rest v w →
      (Client.fire net emit' v).outcome { s with rest := w } = some (.error .foreign, u) → Seen c may u

instance Outcome.decidableEq {ε α : Type} [DecidableEq ε] [DecidableEq α] : DecidableEq (Except ε α)
  | .ok a, .ok b => decidable_of_iff (a = b) ⟨congrArg Except.ok, Except.ok.inj⟩
  | .error e, .error f => decidable_of_iff (e = f) ⟨congrArg Except.error, Except.error.inj⟩
  | .ok _, .error _ | .error _, .ok _ => isFalse (by simp)

deriving instance DecidableEq for World, Stage

section

variable [DecidableEq β] [DecidableEq τ] (u : Stage β (World τ)) (emit : Event → Step (Stage β (World τ)) Unit)

/-- Publishes, but breaks the run off in a given state. -/
def breakingOff (e : Event) : Step (Stage β (World τ)) Unit := do
  if (← get) = u then throw .foreign else emit e

theorem breaksOff_breakingOff : BreaksOff u emit (breakingOff u emit) where
  elsewhere := by
    intro e s hs
    simp only [breakingOff, Step.outcome_bind, Step.outcome_get, if_neg hs]
  here := by
    intro e
    simp only [breakingOff, Step.outcome_bind, Step.outcome_get, if_true, Step.outcome_throw]

end

variable {c : Conduct net} {may : Use → Prop}

namespace Discipline

variable {D : Discipline c may} {emit emit' : Event → Step (Stage β (World τ)) Unit} {s u : Stage β (World τ)}

/-- Consumers are not heard where the law does not hold: a run may be broken off there, and the
discipline is kept all the same. -/
theorem Heeds.breakOff (h : D.Heeds emit) (hb : BreaksOff u emit emit') (hu : ¬D.holds u.rest) : D.Heeds emit' := by
  intro e s hs r t ho
  have hne : s ≠ u := by
    rintro rfl
    exact hu hs
  rw [hb.elsewhere e s hne] at ho
  exact h e s hs r t ho

/-- A law that holds at the start holds wherever the client is seen. -/
theorem holds_of_seen (D : Discipline c may)
    (hstart : ∀ settings endpoint t epoch, c.Blank t →
      D.holds { client := .ofSettings settings endpoint, outside := t, epoch })
    (h : Seen c may s) : D.holds s.rest := by
  have hbetween : ∀ {s : Stage β (World τ)}, Reached c may s → D.holds s.rest := fun hs =>
    (D.settled_of_reached (P := fun _ => True)
      (fun settings endpoint t epoch ht => ⟨hstart settings endpoint t epoch ht, trivial⟩) (fun _ _ => trivial) hs).1
  induction h with
  | between hs => exact hbetween hs
  | @acting _ _ _ _ _ r _ hemit hx ho ih =>
    have hk := (D.heeds_of_consumer hemit).uses hx (Keeps.refl ih) _ _ ho
    cases r with
    | ok a => exact hk.1
    | error e => exact hk.1
  | during _ hemit hb hop ho ih =>
    -- If the law did not hold there, the run that is broken off would keep the discipline up to that very state.
    refine Classical.byContradiction fun hu => ?_
    have hends := ((D.heeds_of_consumer hemit).breakOff hb hu).perform hop (Keeps.refl ih)
    exact hu (hends.failure ho).1.1
  | @ringing s u _ _ v w hs hemit hb hl ho =>
    refine Classical.byContradiction fun hu => ?_
    have hends : (Client.fire net _ v).Ends { s with rest := w } (fun _ t => D.Keeps s.rest t.rest) fun _ _ => False :=
      ((D.heeds_of_consumer hemit).breakOff hb hu).fire (Keeps.refl (hbetween hs)) hl
    exact (hends.failure ho).elim

end Discipline

theorem sound_of_seen {s : Stage β (World τ)} (h : Seen c may s) : Sound c s.rest :=
  (soundness c may).holds_of_seen (fun settings endpoint _ epoch ht => sound_start settings endpoint epoch ht) h

end QuoteFeed
