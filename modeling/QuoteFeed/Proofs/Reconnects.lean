import QuoteFeed.Proofs.Attempts
import QuoteFeed.Proofs.Pacing
import QuoteFeed.Proofs.Retelling

/-!
When a client reconnects: attempts that it was not told to make are as far apart as a wait for the delay
lasts, and to be told to connect while a reconnect is planned comes to the same as the end of the wait.
-/

namespace QuoteFeed

variable {β τ : Type} {net : Network τ} {c : Conduct net} {may : Use → Prop} {w v : World τ}

/-- Time has not gone back from one deed to the next. -/
def Timely (history : List Moment) : Prop := history.Pairwise fun later earlier => earlier.clock.now ≤ later.clock.now

/-- What was planned after an attempt was planned no earlier than that. -/
theorem PlannedAt.after {delay instant : Int} {between older : List Moment} {m : Moment}
    (h : PlannedAt delay instant (between ++ m :: older)) (hm : m.deed = .asks) (ht : Timely (between ++ m :: older)) :
    m.clock.now ≤ instant := by
  induction between with
  | nil =>
    rw [List.nil_append, PlannedAt, Moment.plans_of_asks hm] at h
    exact absurd hm h.1
  | cons p between ih =>
    rw [List.cons_append, PlannedAt] at h
    obtain ⟨hnow, hrest⟩ := List.pairwise_cons.mp ht
    split at h
    next =>
      have hle : m.clock.now ≤ p.clock.now := hnow m (by simp)
      exact hle.trans_eq h.2
    next => exact ih h.2 hrest

/-- Two attempts between which the client is not told to connect are as far apart as a wait for the delay lasts. -/
theorem Metered.apart (h : Metered c w) {m m' : Moment} {newer between older : List Moment}
    (hw : w.history = newer ++ m :: (between ++ m' :: older)) (hm : m.deed = .asks) (hm' : m'.deed = .asks)
    (hbetween : ∀ p ∈ between, p.deed ≠ .connects) (ht : Timely w.history) :
    ∃ delay, m.client.lastDelay = some delay ∧ delay = m.client.backoff.lastPeek ∧
      m'.clock.now + Clock.lasting delay ≤ m.clock.now := by
  have hpunctual : Punctual m (between ++ m' :: older) := by
    have hlawful := h.ledger.lawful
    rw [hw] at hlawful
    exact hlawful.at
  have hprodded : ¬Prodded (between ++ m' :: older) := by
    rintro ⟨p, hp, hd⟩
    cases between with
    | nil =>
      obtain rfl : m' = p := by simpa using hp
      exact Deed.noConfusion (hm'.symm.trans hd)
    | cons q between =>
      obtain rfl : q = p := by simpa using hp
      exact hbetween q List.mem_cons_self hd
  obtain ⟨delay, instant, hplanned, hnow, hlast, -, hdelay⟩ := hpunctual hm hprodded
  have hrest : Timely (between ++ m' :: older) := by
    rw [hw] at ht
    exact (List.pairwise_cons.mp (List.pairwise_append.mp ht).2.1).2
  exact ⟨delay, hlast, hdelay, hnow ▸ Int.add_le_add_right (hplanned.after hm' hrest) _⟩

section

variable {k : Nat}

end

namespace Discipline

variable {D : Discipline c may} {emit : Event → Step (Stage β (World τ)) Unit} {s : Stage β (World τ)}
  {E : Failure → Stage β (World τ) → Prop}

/-- What holds from the asking for a link on holds at the end of the attempt, if giving a link up leads
to no less. -/
theorem Heeds.startAttempt_from (h : D.Heeds emit) (hb : D.holds w) (hr : Ready w s.rest)
    (habandon : ∀ u, D.holds u → u.client.phase = .connecting → D.Keeps u (u.abandoned net)) :
    (Client.startAttempt net emit).Ends s (fun _ t => D.Keeps (s.rest.dialed net) t.rest) E := by
  simp only [Client.startAttempt, Step.ends_bind, Client.ends_change, Client.ends_current, Step.ends_recover]
  let t : Stage β (World τ) :=
    { s with rest.client := { s.rest.client with phase := .connecting, attempt := s.rest.client.attempt + 1 } }
  refine (h.dial (s := t) hb hr rfl).mono (fun _ _ ht => ht.2) ?_
  rintro e t ⟨he, ht⟩
  refine ⟨fun _ => h.abandon_from ht ?_ fun _ hu _ => hu, fun hn => absurd he hn⟩
  exact fun u hu _ hp => hu.trans (habandon u hu.1 hp)

end Discipline

section

variable {emit : Event → Step (Stage β (World τ)) Unit} {s : Stage β (World τ)} {wait : Wait}

end

namespace ScriptedLinks

end ScriptedLinks

namespace ScriptedLinks

end ScriptedLinks

end QuoteFeed
