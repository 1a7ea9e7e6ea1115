import QuoteFeed.HeartbeatSession
import Mathlib.Algebra.Order.Ring.Int
import Mathlib.Data.List.Induction
import Mathlib.Tactic.Ring

/-!
The schedule of a heartbeat, told from its pulses: while it runs, a ping is due one interval after the latest
arming, be it a start, a refresh or a ping. Where pulses are punctual, this fixes all pings.
-/

namespace QuoteFeed

namespace Pulse

/-- The instant of the latest arming and the interval it was for, unless the heartbeat has been stopped since. -/
def armed : List (Int × Pulse) → Option (Int × Int)
  | [] => none
  | (now, start interval) :: _ => some (now, interval)
  | (now, refresh) :: rest => (armed rest).map fun arming => (now, arming.2)
  | (now, ping) :: rest => (armed rest).map fun arming => (now, arming.2)
  | (_, stop) :: _ => none

/-- A ping comes when it is due, and everything else before one is due; an interval is at least a millisecond,
and a wait for it lasts so long. -/
structure Timely (now : Int) (p : Pulse) (rest : List (Int × Pulse)) : Prop where
  ping : p = .ping → ∃ instant interval, armed rest = some (instant, interval) ∧ now = instant + interval
  other : p ≠ .ping → ∀ instant interval, armed rest = some (instant, interval) → now < instant + interval
  later : ∀ last ∈ rest.head?, last.1 ≤ now
  lasting : ∀ interval, p = .start interval → 0 < interval ∧ interval ≤ Clock.reach

/-- Each pulse has been timely. -/
def Punctual : List (Int × Pulse) → Prop
  | [] => True
  | (now, p) :: rest => Timely now p rest ∧ Punctual rest

variable {later earlier : List (Int × Pulse)} {now instant interval span : Int} {p : Pulse}

theorem Punctual.drop (h : Punctual (later ++ earlier)) : Punctual earlier := by
  induction later with
  | nil => exact h
  | cons _ later ih => exact ih h.2

theorem Punctual.timely (h : Punctual (later ++ (now, p) :: earlier)) : Timely now p earlier := h.drop.1

theorem Punctual.lasting (h : Punctual earlier) (ha : armed earlier = some (instant, interval)) :
    0 < interval ∧ interval ≤ Clock.reach := by
  induction earlier generalizing instant with
  | nil => cases ha
  | cons first earlier ih =>
    obtain ⟨now, p⟩ := first
    cases p with
    | start given =>
      cases ha
      exact h.1.lasting _ rfl
    | refresh | ping =>
      obtain ⟨before, hbefore, hsame⟩ := Option.map_eq_some_iff.mp ha
      cases hsame
      exact ih h.2 hbefore
    | stop => cases ha

theorem Punctual.pos (h : Punctual earlier) (ha : armed earlier = some (instant, interval)) : 0 < interval :=
  (h.lasting ha).1

/-- Time does not go back. -/
theorem Punctual.le (h : Punctual (later ++ (now, p) :: earlier)) : ∀ q ∈ later, now ≤ q.1 := by
  induction later with
  | nil => exact fun _ hq => absurd hq List.not_mem_nil
  | cons first later ih =>
    have hfirst : now ≤ first.1 := by
      cases later with
      | nil => exact h.1.later _ rfl
      | cons second later =>
        have hsecond : second.1 ≤ first.1 := h.1.later _ rfl
        exact (ih h.2 second List.mem_cons_self).trans hsecond
    intro q hq
    rcases List.mem_cons.mp hq with rfl | hq
    · exact hfirst
    · exact ih h.2 q hq

/-- What comes first after an arming is the ping that is due, or something before it. -/
theorem Timely.cases (h : Timely now p earlier) (ha : armed earlier = some (instant, interval)) :
    p = .ping ∧ now = instant + interval ∨ p ≠ .ping ∧ now < instant + interval := by
  by_cases hp : p = .ping
  · obtain ⟨instant', interval', ha', hnow⟩ := h.ping hp
    obtain ⟨rfl, rfl⟩ := Prod.mk.inj (Option.some.inj (ha.symm.trans ha'))
    exact .inl ⟨hp, hnow⟩
  · exact .inr ⟨hp, h.other hp _ _ ha⟩

theorem armed_ping (ha : armed earlier = some (instant, interval)) :
    armed ((now, .ping) :: earlier) = some (now, interval) := by
  simp only [armed, ha, Option.map_some]

/-- The instants of the pings up to some time, the first one first. -/
def pingsUntil (limit : Int) (history : List (Int × Pulse)) : List Int :=
  ((history.filter fun pulse => pulse.2 = .ping ∧ pulse.1 ≤ limit).map Prod.fst).reverse

theorem pingsUntil_eq_nil {limit : Int} (h : ∀ q ∈ later, limit < q.1) : pingsUntil limit later = [] := by
  have hnone : later.filter (fun pulse => pulse.2 = .ping ∧ pulse.1 ≤ limit) = [] := by
    refine List.filter_eq_nil_iff.mpr fun q hq hin => ?_
    exact absurd (of_decide_eq_true hin).2 (not_le.mpr (h q hq))
  unfold pingsUntil
  rw [hnone]
  rfl

theorem pingsUntil_ping {limit : Int} (hle : now ≤ limit) :
    pingsUntil limit (later ++ [(now, .ping)]) = now :: pingsUntil limit later := by
  simp [pingsUntil, List.filter_append, hle]

/-- The multiples of an interval in a span that is not shorter. -/
theorem range_div_of_le (hpos : 0 < interval) (hle : interval ≤ span) :
    (List.range (span / interval).toNat).map (fun k : Nat => instant + (k + 1) * interval) =
      (instant + interval) :: (List.range ((span - interval) / interval).toNat).map
        fun k : Nat => instant + interval + (k + 1) * interval := by
  have hsplit : span - interval + 1 * interval = span := by omega
  have hdiv : span / interval = (span - interval) / interval + 1 := by
    conv_lhs => rw [← hsplit, Int.add_mul_ediv_right _ _ (Int.ne_of_gt hpos)]
  have hnonneg : 0 ≤ (span - interval) / interval := Int.ediv_nonneg (by omega) hpos.le
  rw [hdiv, Int.toNat_add hnonneg (by decide), Int.toNat_one, List.range_succ_eq_map, List.map_cons, List.map_map]
  congr 1
  · simp
  · refine List.map_congr_left fun k _ => ?_
    simp only [Function.comp_apply, Nat.succ_eq_add_one, Nat.cast_add, Nat.cast_one]
    ring

/-- As long as nothing is asked for after an arming, pings come at all multiples of the interval. -/
theorem Punctual.pings (h : Punctual (later ++ earlier)) (ha : armed earlier = some (instant, interval))
    (hspan : 0 ≤ span)
    (hpast : ∀ a i, armed (later ++ earlier) = some (a, i) → instant + span < a + i)
    (hquiet : ∀ q ∈ later, q.1 ≤ instant + span → q.2 = .ping) :
    pingsUntil (instant + span) later =
      (List.range (span / interval).toNat).map fun k : Nat => instant + (k + 1) * interval := by
  have hpos : 0 < interval := h.drop.pos ha
  -- the induction goes from the arming onwards, and so takes the pulses from the end of the list
  induction later using List.reverseRecOn generalizing earlier instant span with
  | nil =>
    have hlt : instant + span < instant + interval := hpast _ _ ha
    rw [Int.ediv_eq_zero_of_lt hspan (by omega)]
    rfl
  | append_singleton newer first ih =>
    obtain ⟨now, p⟩ := first
    rw [List.append_assoc, List.singleton_append] at h hpast
    have hlater : ∀ q ∈ newer, now ≤ q.1 := h.le
    have hnone : instant + span < now → now ≤ instant + interval →
        pingsUntil (instant + span) (newer ++ [(now, p)]) =
          (List.range (span / interval).toNat).map fun k : Nat => instant + (k + 1) * interval := by
      intro hlimit hdue
      rw [Int.ediv_eq_zero_of_lt hspan (by omega)]
      refine pingsUntil_eq_nil fun q hq => ?_
      rcases List.mem_append.mp hq with hq | hq
      · exact hlimit.trans_le (hlater q hq)
      · cases List.mem_singleton.mp hq
        exact hlimit
    obtain ⟨rfl, hnow⟩ | ⟨hp, hnow⟩ := h.timely.cases ha
    · by_cases hle : interval ≤ span
      · have hspan' : now + (span - interval) = instant + span := by omega
        have hrest : pingsUntil (now + (span - interval)) newer =
            (List.range ((span - interval) / interval).toNat).map fun k : Nat => now + (k + 1) * interval := by
          refine ih h (armed_ping ha) (by omega) (fun a i hai => hspan' ▸ hpast a i hai) fun q hq hin => ?_
          exact hquiet q (List.mem_append_left _ hq) (hspan' ▸ hin)
        rw [pingsUntil_ping (by omega), range_div_of_le hpos hle, ← hnow, ← hspan', hrest]
      · exact hnone (by omega) hnow.le
    · have hlimit : instant + span < now := by
        by_contra hin
        exact hp (hquiet _ (List.mem_append_right _ (List.mem_singleton_self _)) (not_lt.mp hin))
      exact hnone hlimit hnow.le

/-- A ping that is due is not missed, unless something is asked for before. -/
theorem Punctual.kept (h : Punctual (later ++ earlier)) (ha : armed earlier = some (instant, interval))
    (hpast : ∀ a i, armed (later ++ earlier) = some (a, i) → instant + interval < a + i)
    (hquiet : ∀ q ∈ later, q.2 ≠ .ping → instant + interval ≤ q.1) :
    ∃ newer, later = newer ++ [(instant + interval, .ping)] := by
  rcases List.eq_nil_or_concat later with rfl | ⟨newer, ⟨now, p⟩, rfl⟩
  · exact absurd (hpast _ _ ha) (lt_irrefl _)
  · rw [List.concat_eq_append] at h hquiet ⊢
    rw [List.append_assoc, List.singleton_append] at h
    obtain ⟨rfl, rfl⟩ | ⟨hp, hnow⟩ := h.timely.cases ha
    · exact ⟨newer, rfl⟩
    · exact absurd hnow (not_lt.mpr (hquiet _ (List.mem_append_right _ (List.mem_singleton_self _)) hp))

theorem armed_of_stopped (hquiet : ∀ q ∈ later, ∀ interval, q.2 ≠ .start interval) :
    armed (later ++ (now, .stop) :: earlier) = none := by
  induction later with
  | nil => rfl
  | cons q later ih =>
    have hrest := ih fun q hq => hquiet q (List.mem_cons_of_mem _ hq)
    obtain ⟨time, p⟩ := q
    cases p with
    | start interval => exact absurd rfl (hquiet _ List.mem_cons_self interval)
    | refresh | ping => simp only [List.cons_append, armed, hrest, Option.map_none]
    | stop => rfl

/-- There are no pings from a stop to the next start. -/
theorem Punctual.silent (h : Punctual (later ++ (now, .stop) :: earlier))
    (hquiet : ∀ q ∈ later, ∀ interval, q.2 ≠ .start interval) : ∀ q ∈ later, q.2 ≠ .ping := by
  induction later with
  | nil => exact fun _ hq => absurd hq List.not_mem_nil
  | cons first later ih =>
    have hrest : ∀ q ∈ later, ∀ interval, q.2 ≠ .start interval := fun q hq => hquiet q (List.mem_cons_of_mem _ hq)
    intro q hq
    rcases List.mem_cons.mp hq with rfl | hq
    · intro hping
      obtain ⟨a, i, ha, -⟩ := h.1.ping hping
      exact absurd (ha.symm.trans (armed_of_stopped hrest)) (Option.some_ne_none _)
    · exact ih h.2 hrest q hq

end Pulse

end QuoteFeed
