import QuoteFeed.Proofs.Changes
import QuoteFeed.Proofs.Conduct
import QuoteFeed.Proofs.Ends

/-!
The operations of a client that consumers are not heard in, each as one change of the world.
-/

namespace QuoteFeed

namespace Client

variable {β τ α : Type} {s : Stage β (World τ)} {E : Failure → Stage β (World τ) → Prop}

@[simp] theorem ends_current {Q : Client → Stage β (World τ) → Prop} :
    (current : Step (Stage β (World τ)) Client).Ends s Q E ↔ Q s.rest.client s := by
  simp only [current, Step.ends_bind, Step.ends_get, Step.ends_pure]

@[simp] theorem ends_change {f : Client → Client} {Q : Unit → Stage β (World τ) → Prop} :
    (change f).Ends s Q E ↔ Q () { s with rest.client := f s.rest.client } :=
  Step.ends_modify

@[simp] theorem ends_changeHeartbeat {f : Heartbeat → Clock → Heartbeat × Clock}
    {Q : Unit → Stage β (World τ) → Prop} :
    (changeHeartbeat f).Ends s Q E ↔ Q () { s with rest := s.rest.paced f } :=
  Step.ends_modify

@[simp] theorem ends_changeClock {f : Clock → Clock} {Q : Unit → Stage β (World τ) → Prop} :
    (changeClock f).Ends s Q E ↔ Q () { s with rest.clock := f s.rest.clock } :=
  Step.ends_modify

@[simp] theorem ends_changeOutside {f : τ → τ} {Q : Unit → Stage β (World τ) → Prop} :
    (changeOutside f).Ends s Q E ↔ Q () { s with rest.outside := f s.rest.outside } :=
  Step.ends_modify

@[simp] theorem ends_remember {d : Deed} {Q : Unit → Stage β (World τ) → Prop} :
    (remember d).Ends s Q E ↔ Q () { s with rest := s.rest.noted d } :=
  Step.ends_modify

@[simp] theorem ends_wallClock {Q : Instant → Stage β (World τ) → Prop} :
    (wallClock : Step (Stage β (World τ)) Instant).Ends s Q E ↔ Q (s.rest.epoch.after s.rest.clock.now) s := by
  simp only [wallClock, Step.ends_bind, Step.ends_get, Step.ends_pure]

@[simp] theorem ends_outside {d : Deed} {effect : Effect τ α} {Q : α → Stage β (World τ) → Prop} :
    (outside d effect).Ends s Q E ↔
      Q (effect s.rest.outside).1 { s with
        rest := s.rest.affected d (effect s.rest.outside).2.2
        journal := (effect s.rest.outside).2.1.reverse ++ s.journal } := by
  simp only [outside, Step.ends_bind, ends_remember, Step.ends_get, Step.ends_set, Step.ends_pure]
  exact Iff.rfl

section

variable {α : Type} (s : Stage β (World τ))

theorem outcome_current : (current : Step (Stage β (World τ)) Client).outcome s = some (.ok s.rest.client, s) := rfl

theorem outcome_change (f : Client → Client) :
    (change f).outcome s = some (.ok (), { s with rest.client := f s.rest.client }) := rfl

theorem outcome_changeOutside (f : τ → τ) :
    (changeOutside f).outcome s = some (.ok (), { s with rest.outside := f s.rest.outside }) := rfl

theorem outcome_remember (d : Deed) : (remember d).outcome s = some (.ok (), { s with rest := s.rest.noted d }) := rfl

theorem outcome_cancelReconnect : (cancelReconnect : Step (Stage β (World τ)) Unit).outcome s =
    some (.ok (), { s with rest := s.rest.cancelled }) := rfl

theorem outcome_outside (d : Deed) (effect : Effect τ α) :
    (outside d effect).outcome s = some (.ok (effect s.rest.outside).1, { s with
      rest := s.rest.affected d (effect s.rest.outside).2.2
      journal := (effect s.rest.outside).2.1.reverse ++ s.journal }) := rfl

end

variable {net : Network τ} {c : Conduct net}

theorem measure_ends {name : Octets} {value : Binary64} :
    (measure net name value).Ends s (fun _ t => t.rest = s.rest.measured net name value) E :=
  ends_outside.mpr rfl

theorem cancelReconnect_ends :
    (cancelReconnect : Step (Stage β (World τ)) Unit).Ends s (fun _ t => t.rest = s.rest.cancelled) E := by
  simp only [cancelReconnect, Step.ends_bind, ends_change, ends_changeClock]
  rfl

/-- A link that is not to be closed is given up without a failure. -/
theorem drop_ends : (retire net false).Ends s (fun _ t => t.rest = s.rest.dropped net) E := by
  simp only [retire, Step.ends_bind, ends_current, World.dropped]
  cases s.rest.client.link with
  | none => simp only [Step.ends_pure]
  | some link =>
    simp only [Step.ends_bind, ends_change, ends_changeOutside, Bool.false_eq_true, if_false, Step.ends_pure]

/-- A link that is to be closed is given up even if it will not close. -/
theorem retire_ends (hfit : c.fit s.rest.outside) :
    (retire net true).Ends s (fun _ t => t.rest = s.rest.retired net) E := by
  simp only [retire, Step.ends_bind, ends_current, World.retired, World.dropped]
  cases s.rest.client.link with
  | none => simp only [Step.ends_pure]
  | some link =>
    simp only [Step.ends_bind, ends_change, ends_changeOutside, if_true, Step.ends_recover, ends_outside,
      Step.ends_raise, Step.ends_pure]
    refine ⟨fun _ => trivial, ?_⟩
    intro e he
    refine ⟨fun _ => trivial, ?_⟩
    intro hs
    exact absurd (c.standard_close (c.fit_detach link hfit) he) hs

theorem halt_ends (hfit : c.fit s.rest.outside) : (halt net).Ends s (fun _ t => t.rest = s.rest.halted net) E := by
  simp only [halt, Step.ends_bind, ends_changeHeartbeat]
  refine cancelReconnect_ends.mono ?_ fun _ _ he => he
  intro _ t ht
  refine (retire_ends (c := c) ?_).mono ?_ fun _ _ he => he
  · rw [ht]
    exact hfit
  · intro _ u hu
    rw [hu, ht]
    rfl

theorem send_ends {emit : Event → Step (Stage β (World τ)) Unit} {frame : Octets} {Q : World τ → Prop}
    (hfit : c.fit s.rest.outside)
    (hquiet : (∀ link, s.rest.client.link = some link → (net.send link frame s.rest.outside).1 = none) →
      Q (s.rest.sent net frame))
    (htold : ∀ link e t, s.rest.client.link = some link → (net.send link frame s.rest.outside).1 = some e →
      t.rest = s.rest.sent net frame →
      (tell emit (.error (octets "send failed: " ++ e.message))).Ends t (fun _ u => Q u.rest) E) :
    (send net emit frame).Ends s (fun _ t => Q t.rest) E := by
  simp only [send, Step.ends_bind, ends_current]
  cases hl : s.rest.client.link with
  | none =>
    simp only [World.sent, hl] at hquiet
    simp only [Step.ends_pure]
    exact hquiet (by simp)
  | some link =>
    simp only [World.sent, hl] at hquiet htold
    simp only [Step.ends_recover, Step.ends_bind, ends_outside, Step.ends_raise]
    constructor
    · intro hn
      apply hquiet
      rintro _ ⟨⟩
      exact hn
    · intro e he
      refine ⟨fun _ => htold link e _ rfl he rfl, ?_⟩
      intro hs
      exact absurd (c.standard_send hfit he) hs

end Client

end QuoteFeed
