import QuoteFeed.Step

/-!
What a step ends with: one condition on its value and one on its failure, each together with the
state that is left. A run that is too deep ends with nothing, so that both conditions hold of it.
-/

namespace QuoteFeed

namespace Step

variable {σ α β : Type}

/-- `Q` holds of a value, and `E` of a failure. -/
def Meets (Q : α → σ → Prop) (E : Failure → σ → Prop) : Except Failure α → σ → Prop
  | .ok a => Q a
  | .error e => E e

/-- If the step ends with a value, `Q` holds of it, and if it ends with a failure, `E` does. -/
def Ends (x : Step σ α) (s : σ) (Q : α → σ → Prop) (E : Failure → σ → Prop) : Prop :=
  ∀ r t, x.outcome s = some (r, t) → Meets Q E r t

variable {s t : σ} {Q : α → σ → Prop} {E : Failure → σ → Prop}

theorem Ends.value {x : Step σ α} {a : α} (h : x.Ends s Q E) (hx : x.outcome s = some (.ok a, t)) : Q a t :=
  h (.ok a) t hx

theorem Ends.failure {x : Step σ α} {e : Failure} (h : x.Ends s Q E) (hx : x.outcome s = some (.error e, t)) :
    E e t :=
  h (.error e) t hx

theorem Ends.mono {x : Step σ α} {Q' : α → σ → Prop} {E' : Failure → σ → Prop} (h : x.Ends s Q E)
    (hQ : ∀ a t, Q a t → Q' a t) (hE : ∀ e t, E e t → E' e t) : x.Ends s Q' E' := by
  intro r t hx
  cases r with
  | ok a => exact hQ a t (h.value hx)
  | error e => exact hE e t (h.failure hx)

theorem Ends.and {x : Step σ α} {Q' : α → σ → Prop} {E' : Failure → σ → Prop} (h : x.Ends s Q E)
    (h' : x.Ends s Q' E') : x.Ends s (fun a t => Q a t ∧ Q' a t) fun e t => E e t ∧ E' e t := by
  intro r t hx
  cases r with
  | ok a => exact ⟨h.value hx, h'.value hx⟩
  | error e => exact ⟨h.failure hx, h'.failure hx⟩

theorem ends_iff_of_outcome {x : Step σ α} {r : Except Failure α} (hx : x.outcome s = some (r, t)) :
    x.Ends s Q E ↔ Meets Q E r t := by
  constructor
  · exact fun h => h r t hx
  · intro h r' t' hx'
    obtain ⟨rfl, rfl⟩ := Prod.mk.inj (Option.some.inj (hx.symm.trans hx'))
    exact h

@[simp] theorem ends_pure {a : α} : (pure a : Step σ α).Ends s Q E ↔ Q a s :=
  ends_iff_of_outcome (outcome_pure a s)

@[simp] theorem ends_throw {e : Failure} : (throw e : Step σ α).Ends s Q E ↔ E e s :=
  ends_iff_of_outcome (outcome_throw e s)

@[simp] theorem ends_get {Q : σ → σ → Prop} : (get : Step σ σ).Ends s Q E ↔ Q s s :=
  ends_iff_of_outcome (outcome_get s)

@[simp] theorem ends_set {u : σ} {Q : PUnit → σ → Prop} : (set u : Step σ PUnit).Ends s Q E ↔ Q ⟨⟩ u :=
  ends_iff_of_outcome (outcome_set u s)

@[simp] theorem ends_modify {f : σ → σ} {Q : PUnit → σ → Prop} :
    (modify f : Step σ PUnit).Ends s Q E ↔ Q ⟨⟩ (f s) :=
  ends_iff_of_outcome (outcome_modify f s)

@[simp] theorem ends_exhausted : (exhausted : Step σ α).Ends s Q E := by
  intro r t hx
  simp at hx

@[simp] theorem ends_bind {x : Step σ α} {f : α → Step σ β} {Q : β → σ → Prop} :
    (x >>= f).Ends s Q E ↔ x.Ends s (fun a t => (f a).Ends t Q E) E := by
  constructor
  · intro h r t hx
    cases r with
    | ok a =>
      intro r' t' hf
      exact h r' t' (by rw [outcome_bind, hx]; exact hf)
    | error e => exact h.failure (by rw [outcome_bind, hx])
  · intro h r t hx
    rw [outcome_bind] at hx
    rcases hx' : x.outcome s with _ | ⟨a | e, u⟩
    · simp [hx'] at hx
    · simp only [hx', Option.some.injEq, Prod.mk.injEq] at hx
      obtain ⟨rfl, rfl⟩ := hx
      exact h.failure hx'
    · simp only [hx'] at hx
      exact h.value hx' r t hx

@[simp] theorem ends_tryCatch {x : Step σ α} {handle : Failure → Step σ α} :
    (tryCatch x handle).Ends s Q E ↔ x.Ends s Q fun e t => (handle e).Ends t Q E := by
  constructor
  · intro h r t hx
    cases r with
    | ok a => exact h.value (by rw [outcome_tryCatch, hx])
    | error e =>
      intro r' t' hf
      exact h r' t' (by rw [outcome_tryCatch, hx]; exact hf)
  · intro h r t hx
    rw [outcome_tryCatch] at hx
    rcases hx' : x.outcome s with _ | ⟨e | a, u⟩
    · simp [hx'] at hx
    · simp only [hx'] at hx
      exact h.failure hx' r t hx
    · simp only [hx', Option.some.injEq, Prod.mk.injEq] at hx
      obtain ⟨rfl, rfl⟩ := hx
      exact h.value hx'

@[simp] theorem ends_ite {p : Prop} [Decidable p] {x y : Step σ α} :
    (if p then x else y).Ends s Q E ↔ (p → x.Ends s Q E) ∧ (¬p → y.Ends s Q E) := by
  by_cases hp : p <;> simp [hp]

@[simp] theorem ends_ignoreFailure {x : Step σ Unit} {Q : Unit → σ → Prop} :
    (ignoreFailure x).Ends s Q E ↔ x.Ends s Q fun _ t => Q () t := by
  simp [ignoreFailure]

@[simp] theorem ends_recover {x : Step σ α} {handle : Failure → Step σ α} :
    (recover x handle).Ends s Q E ↔
      x.Ends s Q fun e t => (e.isStandard = true → (handle e).Ends t Q E) ∧ (¬e.isStandard = true → E e t) := by
  simp [recover]

/-- A failure that describes itself is dealt with, and any other goes on. -/
theorem outcome_recover (x : Step σ α) (handle : Failure → Step σ α) (s : σ) :
    (recover x handle).outcome s = match x.outcome s with
      | none => none
      | some (.ok a, t) => some (.ok a, t)
      | some (.error e, t) => if e.isStandard then (handle e).outcome t else some (.error e, t) := by
  unfold recover
  rw [outcome_tryCatch]
  rcases x.outcome s with _ | ⟨e | a, t⟩
  · rfl
  · by_cases he : e.isStandard = true
    · simp only [he, if_true]
    · simp only [he, Bool.false_eq_true, if_false, outcome_throw]
  · rfl

@[simp] theorem ends_ofExcept {x : Except Failure α} :
    (ofExcept x).Ends s Q E ↔ (∀ a, x = .ok a → Q a s) ∧ ∀ e, x = .error e → E e s := by
  cases x <;> simp [ofExcept]

@[simp] theorem ends_raise {e : Option Failure} {Q : Unit → σ → Prop} :
    (raise e).Ends s Q E ↔ (e = none → Q () s) ∧ ∀ f, e = some f → E f s := by
  cases e <;> simp [raise]

/-- A loop keeps what each of its rounds keeps. -/
theorem ends_forM {as : List α} {f : α → Step σ PUnit} {P : List α → σ → Prop} (h : P as s)
    (hround : ∀ a rest t, P (a :: rest) t → (f a).Ends t (fun _ u => P rest u) E) :
    (as.forM f).Ends s (fun _ t => P [] t) E := by
  induction as generalizing s with
  | nil => simpa using h
  | cons a rest ih =>
    rw [show (a :: rest).forM f = (do f a; rest.forM f) from rfl, ends_bind]
    exact (hround a rest s h).mono (fun _ t ht => ih ht) fun _ _ he => he

/-- The step keeps a property of the state, with a value or with a failure. -/
def Preserves (P : σ → Prop) (x : Step σ α) : Prop := ∀ s, P s → x.Ends s (fun _ t => P t) fun _ t => P t

section

variable {P : σ → Prop} {x : Step σ α}

theorem Preserves.left (h : Preserves P x) {r : Except Failure α} (hs : P s) (hx : x.outcome s = some (r, t)) :
    P t := by
  have hend := h s hs r t hx
  cases r <;> exact hend

theorem preserves_pure (a : α) : Preserves P (pure a : Step σ α) := fun _ hs => ends_pure.mpr hs

theorem preserves_throw (e : Failure) : Preserves P (throw e : Step σ α) := fun _ hs => ends_throw.mpr hs

theorem preserves_exhausted : Preserves P (exhausted : Step σ α) := fun _ _ => ends_exhausted

theorem preserves_modify {f : σ → σ} (hf : ∀ s, P s → P (f s)) : Preserves P (modify f : Step σ PUnit) :=
  fun s hs => ends_modify.mpr (hf s hs)

theorem Preserves.bind {f : α → Step σ β} (hx : Preserves P x) (hf : ∀ a, Preserves P (f a)) :
    Preserves P (x >>= f) :=
  fun s hs => ends_bind.mpr ((hx s hs).mono (fun a t ht => hf a t ht) fun _ _ he => he)

theorem Preserves.tryCatch {handle : Failure → Step σ α} (hx : Preserves P x)
    (hhandle : ∀ e, Preserves P (handle e)) : Preserves P (MonadExcept.tryCatch x handle) :=
  fun s hs => ends_tryCatch.mpr ((hx s hs).mono (fun _ _ ht => ht) fun e t ht => hhandle e t ht)

theorem Preserves.ite {p : Prop} [Decidable p] {y : Step σ α} (hx : Preserves P x) (hy : Preserves P y) :
    Preserves P (if p then x else y) :=
  fun s hs => ends_ite.mpr ⟨fun _ => hx s hs, fun _ => hy s hs⟩

theorem Preserves.recover {handle : Failure → Step σ α} (hx : Preserves P x) (hhandle : ∀ e, Preserves P (handle e)) :
    Preserves P (Step.recover x handle) :=
  hx.tryCatch fun e => (hhandle e).ite (preserves_throw e)

theorem preserves_ofExcept (r : Except Failure α) : Preserves P (ofExcept r : Step σ α) := by
  cases r with
  | ok a => exact preserves_pure a
  | error e => exact preserves_throw e

theorem preserves_raise (e : Option Failure) : Preserves P (raise e : Step σ Unit) := by
  cases e with
  | none => exact preserves_pure ()
  | some e => exact preserves_throw e

theorem preserves_look {f : σ → Step σ α} (hf : ∀ s, P s → (f s).Ends s (fun _ t => P t) fun _ t => P t) :
    Preserves P (get >>= f) :=
  fun s hs => ends_bind.mpr (ends_get.mpr (hf s hs))

theorem preserves_forM {as : List α} {f : α → Step σ PUnit} (hf : ∀ a, Preserves P (f a)) :
    Preserves P (as.forM f) := by
  induction as with
  | nil => exact preserves_pure _
  | cons a as ih => exact (hf a).bind fun _ => ih

end

end Step

end QuoteFeed
