import QuoteFeed.Step

/-!
Steps that come to a value. Nothing fails in them and no run is too deep, so that the condition on the
value and on the state that is left always has something to hold of.
-/

namespace QuoteFeed

namespace Step

variable {σ α β : Type}

/-- The step comes to a value, and `Q` holds of it. -/
def Gives (x : Step σ α) (s : σ) (Q : α → σ → Prop) : Prop := ∃ a t, x.outcome s = some (.ok a, t) ∧ Q a t

variable {s t : σ} {Q : α → σ → Prop}

theorem Gives.value {x : Step σ α} {r : Except Failure α} (h : x.Gives s Q) (hx : x.outcome s = some (r, t)) :
    ∃ a, r = .ok a ∧ Q a t := by
  obtain ⟨a, u, ha, hQ⟩ := h
  obtain ⟨rfl, rfl⟩ := Prod.mk.inj (Option.some.inj (hx.symm.trans ha))
  exact ⟨a, rfl, hQ⟩

theorem Gives.mono {x : Step σ α} {Q' : α → σ → Prop} (h : x.Gives s Q) (hQ : ∀ a t, Q a t → Q' a t) :
    x.Gives s Q' := by
  obtain ⟨a, t, ha, h⟩ := h
  exact ⟨a, t, ha, hQ a t h⟩

theorem gives_iff_of_outcome {x : Step σ α} {a : α} (hx : x.outcome s = some (.ok a, t)) : x.Gives s Q ↔ Q a t := by
  refine ⟨fun h => ?_, fun h => ⟨a, t, hx, h⟩⟩
  obtain ⟨b, hb, hQ⟩ := h.value hx
  exact Except.ok.inj hb ▸ hQ

@[simp] theorem gives_pure {a : α} : (pure a : Step σ α).Gives s Q ↔ Q a s := gives_iff_of_outcome (outcome_pure a s)

@[simp] theorem gives_get {Q : σ → σ → Prop} : (get : Step σ σ).Gives s Q ↔ Q s s :=
  gives_iff_of_outcome (outcome_get s)

@[simp] theorem gives_modify {f : σ → σ} {Q : PUnit → σ → Prop} : (modify f : Step σ PUnit).Gives s Q ↔ Q ⟨⟩ (f s) :=
  gives_iff_of_outcome (outcome_modify f s)

@[simp] theorem gives_bind {x : Step σ α} {f : α → Step σ β} {Q : β → σ → Prop} :
    (x >>= f).Gives s Q ↔ x.Gives s fun a t => (f a).Gives t Q := by
  constructor
  · rintro ⟨b, u, hb, hQ⟩
    rw [outcome_bind] at hb
    rcases hx : x.outcome s with _ | ⟨e | a, t⟩
    · simp [hx] at hb
    · simp [hx] at hb
    · exact ⟨a, t, hx, b, u, by simpa only [hx] using hb, hQ⟩
  · rintro ⟨a, t, hx, b, u, hb, hQ⟩
    exact ⟨b, u, by rw [outcome_bind, hx]; exact hb, hQ⟩

/-- One step after another. -/
theorem Gives.bind {x : Step σ α} {f : α → Step σ β} {Q' : β → σ → Prop} (h : x.Gives s Q)
    (hf : ∀ a t, Q a t → (f a).Gives t Q') : (x >>= f).Gives s Q' :=
  gives_bind.mpr (h.mono hf)

/-- A loop keeps what each of its rounds keeps. -/
theorem gives_forM {as : List α} {f : α → Step σ PUnit} {P : σ → Prop} (h : P s)
    (hround : ∀ a ∈ as, ∀ t, P t → (f a).Gives t fun _ u => P u) : (as.forM f).Gives s fun _ t => P t := by
  induction as generalizing s with
  | nil => exact gives_pure.mpr h
  | cons a rest ih =>
    refine (hround a List.mem_cons_self s h).bind fun _ t ht => ih ht fun b hb => ?_
    exact hround b (List.mem_cons_of_mem _ hb)

end Step

end QuoteFeed
