import QuoteFeed.Proofs.Courses

/-!
A client that has had observers only: whatever it is left in, it has come to turn by turn.
-/

namespace QuoteFeed

variable {β τ : Type} {net : Network τ} {c : Conduct net} {may : Use → Prop}

/-- The states that a client with observers only is left in, from some state on. -/
inductive Follows (c : Conduct net) (may : Use → Prop) (s : Stage β (World τ)) : Stage β (World τ) → Prop
  | refl : Follows c may s s
  | use {α : Type} {t u : Stage β (World τ)} {emit : Event → Step (Stage β (World τ)) Unit}
      {x : Step (Stage β (World τ)) α} {r : Except Failure α} :
      Follows c may s t → Consumer c (fun _ => False) emit → Uses c may emit x → x.outcome t = some (r, u) →
      Follows c may s u
  | pass {t : Stage β (World τ)} (now : Int) : Follows c may s t → Follows c may s { t with rest.clock.now := now }
  | lapse {t u : Stage β (World τ)} {emit : Event → Step (Stage β (World τ)) Unit} {v : Wait} {w : World τ}
      {r : Except Failure Unit} :
      Follows c may s t → Consumer c (fun _ => False) emit → Lapses t.rest v w →
      (Client.fire net emit v).outcome { t with rest := w } = some (r, u) → Follows c may s u

/-- The states that a client is left in that has had observers only. -/
def Watched (c : Conduct net) (may : Use → Prop) (s : Stage β (World τ)) : Prop :=
  ∃ (settings : Settings) (client : Client) (t : τ) (bus : Bus β) (journal : List Entry) (epoch : Instant),
    Client.create settings true = .ok client ∧ c.Blank t ∧
      Follows c may { bus, journal, rest := { client, outside := t, epoch } } s

section

variable {s t : Stage β (World τ)}

theorem Follows.reached (h : Follows c may s t) (hs : Reached c may s) : Reached c may t := by
  induction h with
  | refl => exact hs
  | use _ hemit hx ho ih => exact ih.use (hemit.mono fun _ hop => hop.elim) hx ho
  | pass now _ ih => exact ih.pass now
  | lapse _ hemit hl ho ih => exact ih.lapse (hemit.mono fun _ hop => hop.elim) hl ho

theorem Follows.after {α : Type} {emit : Event → Step (Stage β (World τ)) Unit} {x : Step (Stage β (World τ)) α}
    (h : Follows c may s t) (hemit : Consumer c (fun _ => False) emit) (hx : Uses c may emit x) :
    Follows c may s (x.after t) := by
  unfold Step.after
  cases ho : x.outcome t with
  | none => exact h
  | some p => exact h.use hemit hx ho

theorem Watched.reached (h : Watched c may s) : Reached c may s := by
  obtain ⟨settings, client, t, bus, journal, epoch, hcreate, hblank, hfollows⟩ := h
  exact hfollows.reached (.start bus journal epoch hcreate hblank)

/-- What a client with observers is left in after some time, it has come to turn by turn. -/
theorem Follows.course (h : Follows c may s t) (hs : Sound c s.rest) :
    Sound c t.rest ∧ Course net may s.rest t.rest := by
  induction h with
  | refl => exact ⟨hs, .refl⟩
  | @use _ t _ emit _ r _ hemit hx ho ih =>
    have hobserved : Observed c emit := observed_of_consumer hemit
    have hheeds : (soundness c may).Heeds emit := Discipline.heeds_of_consumer _ (hemit.mono fun _ hop => hop.elim)
    have hends := hobserved.uses_course hheeds hx ih
    cases r with
    | ok a => exact hends.value ho
    | error e => exact hends.failure ho
  | pass now _ ih => exact ⟨ih.1.passed now, ih.2.next (.still ⟨rfl, rfl, fun _ => .inl⟩)⟩
  | @lapse t _ emit v w r _ hemit hl ho ih =>
    have hobserved : Observed c emit := observed_of_consumer hemit
    have hheeds : (soundness c may).Heeds emit := Discipline.heeds_of_consumer _ (hemit.mono fun _ hop => hop.elim)
    have hkeeps := hheeds.fire (s := { t with rest := w }) (E := fun _ _ => False) (Discipline.Keeps.refl ih.1) hl
    have hcourse := hobserved.fire_course (s := { t with rest := w }) (E := fun _ _ => False) hheeds ih.1 ih.2 hl
    cases r with
    | ok a => exact ⟨(hkeeps.value ho).1, hcourse.value ho⟩
    | error e => exact (hkeeps.failure ho).elim

/-- A law that holds at the start and that every turn keeps holds of a client that has had observers only. -/
theorem Watched.induction {P : World τ → Prop}
    (hstart : ∀ settings endpoint t epoch, P { client := .ofSettings settings endpoint, outside := t, epoch })
    (hturn : ∀ {w v}, P w → Turn net may w v → P v) (h : Watched c may s) : P s.rest := by
  obtain ⟨settings, client, t, bus, journal, epoch, hcreate, hblank, hfollows⟩ := h
  obtain ⟨endpoint, rfl⟩ := Client.eq_ofSettings hcreate
  have hcourse := (hfollows.course (sound_start settings endpoint epoch hblank)).2
  generalize s.rest = v at hcourse ⊢
  induction hcourse with
  | refl => exact hstart settings endpoint t epoch
  | tail _ hlast ih => exact hturn ih hlast

end

theorem ScriptedLinks.watched_played {quiet : Bool} {emit : Event → Step (Stage Unit (World ScriptedLinks)) Unit}
    {may : Use → Prop} {t : ScriptedLinks} {bus : Bus Unit} {ops : List Use} (ht : (conduct quiet).Blank t)
    (hemit : Consumer (conduct quiet) (fun _ => False) emit) (hops : ∀ op ∈ ops, may op) :
    Watched (conduct quiet) may (played quiet t bus emit ops) :=
  ⟨{}, .standard, t, bus, [], default, Client.create_standard, ht, Follows.refl.after hemit (uses_performAll hops)⟩

end QuoteFeed
