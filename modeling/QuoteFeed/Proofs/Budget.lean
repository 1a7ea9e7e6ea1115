import QuoteFeed.Proofs.Pacing

/-!
How many attempts a client makes that it was not told to make: no more than it plans reconnects, as long
as nothing takes their count back.
-/

namespace QuoteFeed

namespace Moment

/-- A link is asked for without the client having just been told to connect. -/
def unprompted (m : Moment) (rest : List Moment) : Bool :=
  m.deed = .asks && !rest.head?.any fun p => p.deed = .connects

/-- The client is told neither to connect nor to disconnect, and does not begin to be connected. -/
structure Uneventful (m : Moment) : Prop where
  connects : m.deed ≠ .connects
  disconnects : m.deed ≠ .disconnects
  opens : m.deed = .hears .opened → m.client.phase ≠ .connecting

end Moment

/-- How many links have been asked for by the wait for a reconnect. -/
def unpromptedAsks : List Moment → Nat
  | [] => 0
  | m :: rest => if m.unprompted rest then unpromptedAsks rest + 1 else unpromptedAsks rest

/-- A reconnect has been planned, and no link has been asked for since. -/
def Outstanding (history : List Moment) : Prop := ∃ delay instant, PlannedAt delay instant history

/-- Beyond some number, each attempt by the wait has taken up a reconnect that was planned. One that is
outstanding is left over. -/
structure Covered (base : Nat) (history : List Moment) : Prop where
  le : unpromptedAsks history ≤ base + plannings history
  lt : Outstanding history → 0 < plannings history → unpromptedAsks history < base + plannings history

section

variable {settings : Settings} {base : Nat} {m : Moment} {stretch older rest : List Moment}

theorem Moment.unprompted_of_ne (h : m.deed ≠ .asks) : m.unprompted rest = false := by
  simp [Moment.unprompted, h]

theorem unpromptedAsks_of_not (h : m.unprompted rest = false) : unpromptedAsks (m :: rest) = unpromptedAsks rest := by
  rw [unpromptedAsks, h]
  rfl

theorem not_outstanding_of_asks (h : m.deed = .asks) : ¬Outstanding (m :: rest) := by
  rintro ⟨delay, instant, hp⟩
  rw [PlannedAt, Moment.plans_of_asks h] at hp
  exact hp.1 h

/-- An attempt that the client was not told to make leaves the count as it is. -/
theorem plannings_of_unprompted (hd : m.deed = .asks) (h : ¬Prodded rest) :
    plannings (m :: rest) = plannings rest := by
  have hr : m.renews rest = false := by
    simp only [Moment.renews, hd]
    cases hrest : rest.head? with
    | none => rfl
    | some p =>
      have hp : p.deed ≠ .connects := fun hp => h ⟨p, hrest, hp⟩
      simp [Moment.calls, hp]
  rw [plannings, Moment.plans_of_asks hd, hr]
  rfl

theorem Moment.unprompted_iff (hd : m.deed = .asks) : m.unprompted rest = true ↔ ¬Prodded rest := by
  unfold Moment.unprompted Prodded
  cases rest.head? <;> simp [hd]

theorem plannings_le (h : Throughout (Moment.Booked settings) rest) (hpos : 0 < settings.maxAttempts.toNat) :
    plannings rest ≤ settings.maxAttempts.toNat := by
  cases rest with
  | nil => exact Nat.zero_le _
  | cons m rest => exact h.1.capped hpos

namespace Covered

theorem plan (h : Covered base rest) (hp : m.plans = true) : Covered base (m :: rest) := by
  have hasks : unpromptedAsks (m :: rest) = unpromptedAsks rest :=
    unpromptedAsks_of_not (Moment.unprompted_of_ne fun hd => absurd (hp.symm.trans (Moment.plans_of_asks hd)) nofun)
  have hplanned : plannings (m :: rest) = plannings rest + 1 := by rw [plannings, if_pos hp]
  have hlt : unpromptedAsks (m :: rest) < base + plannings (m :: rest) := by
    rw [hasks, hplanned]
    exact Nat.lt_succ_of_le h.le
  exact ⟨hlt.le, fun _ _ => hlt⟩

/-- An attempt by the wait takes up what is outstanding. -/
theorem attempt (h : Covered base rest) (hd : m.deed = .asks) (hn : ¬Prodded rest) (ho : Outstanding rest)
    (hpos : 0 < plannings rest) : Covered base (m :: rest) := by
  have hasks : unpromptedAsks (m :: rest) = unpromptedAsks rest + 1 := by
    rw [unpromptedAsks, (Moment.unprompted_iff hd).mpr hn]
    rfl
  refine ⟨?_, fun ho' => absurd ho' (not_outstanding_of_asks hd)⟩
  rw [hasks, plannings_of_unprompted hd hn]
  exact h.lt ho hpos

theorem pass (h : Covered base rest) (hi : m.Incidental) : Covered base (m :: rest) := by
  have hasks : unpromptedAsks (m :: rest) = unpromptedAsks rest :=
    unpromptedAsks_of_not (Moment.unprompted_of_ne hi.asks)
  have hplanned : plannings (m :: rest) = plannings rest := by
    rw [plannings, hi.plans, hi.renews rest]
    rfl
  refine ⟨?_, ?_⟩
  · rw [hasks, hplanned]
    exact h.le
  · rintro ⟨delay, instant, hp⟩ hpos
    rw [PlannedAt, hi.plans] at hp
    rw [hplanned] at hpos
    rw [hasks, hplanned]
    exact h.lt ⟨delay, instant, hp.2⟩ hpos

end Covered

theorem Moment.Uneventful.incidental (h : m.Uneventful) (hp : m.plans = false) (hd : m.deed ≠ .asks) :
    m.Incidental :=
  ⟨hp, hd, h.disconnects, h.opens⟩

/-- In a stretch in which nothing takes the count back, attempts by the wait are covered. -/
theorem covered_stretch (hlawful : Throughout Punctual (stretch ++ older))
    (hbooked : Throughout (Moment.Booked settings) (stretch ++ older)) (hstretch : ∀ m ∈ stretch, m.Uneventful) :
    Covered (unpromptedAsks older) (stretch ++ older) := by
  induction stretch with
  | nil => exact ⟨Nat.le_add_right _ _, fun _ hpos => Nat.lt_add_of_pos_right hpos⟩
  | cons m stretch ih =>
    have hm : m.Uneventful := hstretch m List.mem_cons_self
    have hrest : Covered (unpromptedAsks older) (stretch ++ older) :=
      ih hlawful.2 hbooked.2 fun p hp => hstretch p (List.mem_cons_of_mem m hp)
    rw [List.cons_append]
    by_cases hp : m.plans = true
    · exact hrest.plan hp
    by_cases hd : m.deed = .asks
    · by_cases hn : Prodded (stretch ++ older)
      · -- Only the first deed of the stretch may come just after the client has been told to connect.
        obtain ⟨p, hhead, hconnects⟩ := hn
        cases stretch with
        | nil =>
          have hasks : unpromptedAsks (m :: older) = unpromptedAsks older := by
            refine unpromptedAsks_of_not (eq_false_of_ne_true fun hu => ?_)
            exact (Moment.unprompted_iff hd).mp hu ⟨p, hhead, hconnects⟩
          refine ⟨?_, fun ho => absurd ho (not_outstanding_of_asks hd)⟩
          rw [List.nil_append, hasks]
          exact Nat.le_add_right _ _
        | cons q stretch =>
          obtain rfl : q = p := by simpa using hhead
          exact absurd hconnects (hstretch q (by simp)).connects
      · obtain ⟨delay, instant, hplanned, -, -, hpos, -⟩ := hlawful.1 hd hn
        have hcounted : m.client.backoff.attempts = plannings (stretch ++ older) := by
          rw [hbooked.1.counted (by simp [hd])]
          exact plannings_of_unprompted hd hn
        exact hrest.attempt hd hn ⟨delay, _, hplanned⟩ (hcounted ▸ hpos)
    · exact hrest.pass (hm.incidental (eq_false_of_ne_true hp) hd)

end

end QuoteFeed
