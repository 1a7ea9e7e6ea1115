import QuoteFeed.Proofs.Dealings

/-!
Steps that end with a value or a failure from every state. The operations of a client are such steps
whenever its publications are: no loop of theirs goes on by itself.
-/

namespace QuoteFeed

namespace Step

variable {σ α β : Type}

/-- The step ends with a value or with a failure, wherever it starts. -/
def Settles (x : Step σ α) : Prop := ∀ s, ∃ r t, x.outcome s = some (r, t)

theorem settles_pure (a : α) : (pure a : Step σ α).Settles := fun s => ⟨_, s, outcome_pure a s⟩

theorem settles_throw (e : Failure) : (throw e : Step σ α).Settles := fun s => ⟨_, s, outcome_throw e s⟩

theorem settles_get : (get : Step σ σ).Settles := fun s => ⟨_, s, outcome_get s⟩

theorem settles_set (t : σ) : (set t : Step σ PUnit).Settles := fun s => ⟨_, t, outcome_set t s⟩

theorem settles_modify (f : σ → σ) : (modify f : Step σ PUnit).Settles := fun s => ⟨_, f s, outcome_modify f s⟩

theorem Settles.bind {x : Step σ α} {f : α → Step σ β} (hx : x.Settles) (hf : ∀ a, (f a).Settles) :
    (x >>= f).Settles := by
  intro s
  obtain ⟨r, t, h⟩ := hx s
  cases r with
  | ok a =>
    obtain ⟨r', t', h'⟩ := hf a t
    exact ⟨r', t', by rw [outcome_bind, h]; exact h'⟩
  | error e => exact ⟨.error e, t, by rw [outcome_bind, h]⟩

theorem Settles.tryCatch {x : Step σ α} {handle : Failure → Step σ α} (hx : x.Settles)
    (hhandle : ∀ e, (handle e).Settles) : (tryCatch x handle).Settles := by
  intro s
  obtain ⟨r, t, h⟩ := hx s
  cases r with
  | ok a => exact ⟨.ok a, t, by rw [outcome_tryCatch, h]⟩
  | error e =>
    obtain ⟨r', t', h'⟩ := hhandle e t
    exact ⟨r', t', by rw [outcome_tryCatch, h]; exact h'⟩

end Step

namespace Stage

variable {β ρ : Type} {run : Slot β → Event → Step (Stage β ρ) Unit}

theorem settles_deliver (hrun : ∀ slot e, (run slot e).Settles) (e : Event) (ids : List Nat) :
    (deliver run e ids).Settles := by
  induction ids with
  | nil => exact Step.settles_pure ()
  | cons id ids ih =>
    refine Step.settles_get.bind fun s => ?_
    cases s.bus.find? id with
    | none => exact ih
    | some slot => exact ((hrun slot e).tryCatch fun _ => Step.settles_pure ()).bind fun _ => ih

/-- What is published is dealt with if every handler comes to an end. -/
theorem settles_publish (hrun : ∀ slot e, (run slot e).Settles) (e : Event) : (publish run e).Settles :=
  Step.settles_get.bind fun _ => settles_deliver hrun e _

end Stage

/-- Whoever deals with consumers that come to an end does so too. -/
theorem Deals.settles {α β τ : Type} {net : Network τ} {emit emit' : Event → Step (Stage β (World τ)) Unit}
    {x y : Step (Stage β (World τ)) α} (hemit : ∀ e, (emit e).Settles) (h : Deals net emit emit' x y) : x.Settles := by
  induction h with
  | pure a => exact Step.settles_pure a
  | throw e => exact Step.settles_throw e
  | bind _ _ ihx ihf => exact ihx.bind ihf
  | tryCatch _ _ ihx ihf => exact ihx.tryCatch ihf
  | look => exact Step.settles_get
  | alter f hf => exact Step.settles_modify _
  | attach link attempt => exact Step.settles_modify _
  | detach link => exact Step.settles_modify _
  | remember hd => exact Step.settles_modify _
  | does hd =>
    refine (Step.settles_modify _).bind fun _ => Step.settles_get.bind fun _ => ?_
    exact (Step.settles_set _).bind fun _ => Step.settles_pure _
  | tell e => exact (Step.settles_modify _).bind fun _ => hemit e

namespace Client

variable {β τ : Type} {net : Network τ} {emit : Event → Step (Stage β (World τ)) Unit}

theorem settles_takeDown : (takeDown net : Step (Stage β (World τ)) Unit).Settles :=
  (takeDown_deals net (fun _ => pure ()) fun _ => pure ()).settles fun _ => Step.settles_pure ()

variable (hemit : ∀ e, (emit e).Settles)
include hemit

theorem settles_handleOpen : (handleOpen net emit).Settles := (handleOpen_deals net emit emit).settles hemit

theorem settles_receiveFrom (link : Nat) (r : Report) : (receiveFrom net emit link r).Settles :=
  (receiveFrom_deals net emit emit link r).settles hemit

theorem settles_abandon (attempt : Nat) (e : Failure) : (abandon net emit attempt e).Settles :=
  (abandon_deals net emit emit attempt e).settles hemit

theorem settles_connect : (connect net emit).Settles := (connect_deals net emit emit).settles hemit

theorem settles_fire (w : Wait) : (fire net emit w).Settles := (fire_deals net emit emit w).settles hemit

theorem settles_perform {c : Conduct net} (op : Use) : (op.perform c emit).Settles :=
  (perform_deals net emit emit op).settles hemit

end Client

end QuoteFeed
