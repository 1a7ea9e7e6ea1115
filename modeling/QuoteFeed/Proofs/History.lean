import QuoteFeed.Proofs.Changes
import QuoteFeed.Proofs.Requests

/-!
What a client has done so far: laws that every moment of it obeys, and what the venue makes of the
frames that were sent over each link.
-/

namespace QuoteFeed

/-- A law that each moment of a history obeys, given what came before it. -/
def Throughout (P : Moment → List Moment → Prop) : List Moment → Prop
  | [] => True
  | m :: rest => P m rest ∧ Throughout P rest

/-- A history goes on by deeds of some kind. -/
def Extends (K : Deed → Prop) (old new : List Moment) : Prop := ∃ added, new = added ++ old ∧ ∀ m ∈ added, K m.deed

/-- The ids that a link has been asked for by the frames sent over it, one after another. -/
def wanted (link : Nat) : List Moment → List Octets
  | [] => []
  | ⟨_, _, .sends l frame⟩ :: rest =>
    if l = link then ((Request.ofFrame? frame).elim id Request.apply) (wanted link rest) else wanted link rest
  | _ :: rest => wanted link rest

/-- The opening of a link, as that of some attempt, has been acted on. -/
def Opened (link attempt : Nat) (history : List Moment) : Prop :=
  ∃ m ∈ history, m.deed = .hears .opened ∧ m.client.link = some link ∧ m.client.attempt = attempt

def Silent (link : Nat) (history : List Moment) : Prop := ∀ m ∈ history, ∀ frame, m.deed ≠ .sends link frame

namespace Deed

/-- Deeds that have nothing to do with sending, replays and openings. -/
def IsMute : Deed → Prop
  | sends .. | replays _ => False
  | publishes e => e.kind ≠ .connected
  | hears _ | connects | disconnects | asks | dials _ | closes _ | measures .. => True

end Deed

section

variable {K : Deed → Prop} {P : Moment → List Moment → Prop} {old mid new : List Moment} {link attempt : Nat}

theorem Extends.refl : Extends K old old := ⟨[], rfl, by simp⟩

theorem Extends.cons {m : Moment} (h : Extends K old new) (hm : K m.deed) : Extends K old (m :: new) := by
  obtain ⟨added, rfl, hadded⟩ := h
  refine ⟨m :: added, rfl, ?_⟩
  intro m' hm'
  rcases List.mem_cons.mp hm' with rfl | hin
  · exact hm
  · exact hadded m' hin

/-- What holds at first and is kept by each deed that follows holds in the end. -/
@[elab_as_elim]
theorem Extends.induction {motive : (new : List Moment) → Extends K old new → Prop} (start : motive old .refl)
    (more : ∀ {m : Moment} {mid : List Moment} (he : Extends K old mid) (hm : K m.deed),
      motive mid he → motive (m :: mid) (he.cons hm))
    {new : List Moment} (he : Extends K old new) : motive new he := by
  obtain ⟨added, rfl, hadded⟩ := he
  induction added with
  | nil => exact start
  | cons m added ih =>
    have hrest : ∀ m' ∈ added, K m'.deed := fun m' hm' => hadded m' (List.mem_cons_of_mem m hm')
    exact more ⟨added, rfl, hrest⟩ (hadded m List.mem_cons_self) (ih hrest)

theorem Extends.trans (h : Extends K old mid) (h' : Extends K mid new) : Extends K old new := by
  induction h' using Extends.induction with
  | start => exact h
  | more _ hm ih => exact ih.cons hm

theorem Extends.mem {m : Moment} (h : Extends K old new) (hm : m ∈ new) : m ∈ old ∨ K m.deed := by
  obtain ⟨added, rfl, hadded⟩ := h
  rcases List.mem_append.mp hm with hm | hm
  · exact .inr (hadded m hm)
  · exact .inl hm

theorem Extends.mem_of_mem {m : Moment} (h : Extends K old new) (hm : m ∈ old) : m ∈ new := by
  obtain ⟨added, rfl, -⟩ := h
  exact List.mem_append_right added hm

/-- A law that deeds of some kind obey in any case goes on to hold. -/
theorem Throughout.extend (h : Throughout P old) (hK : ∀ m rest, K m.deed → P m rest) (he : Extends K old new) :
    Throughout P new := by
  induction he using Extends.induction with
  | start => exact h
  | more _ hm ih => exact ⟨hK _ _ hm, ih⟩

theorem Throughout.drop {newer rest : List Moment} (h : Throughout P (newer ++ rest)) : Throughout P rest := by
  induction newer with
  | nil => exact h
  | cons _ newer ih => exact ih h.2

theorem Throughout.at {newer rest : List Moment} {m : Moment} (h : Throughout P (newer ++ m :: rest)) : P m rest :=
  h.drop.1

theorem Opened.cons {m : Moment} (h : Opened link attempt old) : Opened link attempt (m :: old) := by
  obtain ⟨m', hm', hopened⟩ := h
  exact ⟨m', List.mem_cons_of_mem m hm', hopened⟩

theorem Opened.extend (h : Opened link attempt old) (he : Extends K old new) : Opened link attempt new := by
  obtain ⟨m, hm, hopened⟩ := h
  exact ⟨m, he.mem_of_mem hm, hopened⟩

theorem Silent.extend (h : Silent link old) (he : Extends Deed.IsMute old new) : Silent link new := by
  intro m hm frame hs
  rcases he.mem hm with hold | hmute
  · exact h m hold frame hs
  · rw [hs] at hmute
    exact hmute

/-- Only what is sent changes what a link has been asked for. -/
theorem wanted_cons {m : Moment} (h : ∀ frame, m.deed ≠ .sends link frame) :
    wanted link (m :: old) = wanted link old := by
  obtain ⟨client, clock, d⟩ := m
  cases d with
  | sends l frame =>
    have hl : ¬l = link := fun hl => h frame (hl ▸ rfl)
    simp only [wanted, hl, if_false]
  | _ => rfl

theorem wanted_extend (he : Extends Deed.IsMute old new) : wanted link new = wanted link old := by
  induction he using Extends.induction with
  | start => rfl
  | more _ hmute ih =>
    rw [wanted_cons, ih]
    intro frame hs
    rw [hs] at hmute
    exact hmute

theorem wanted_of_silent (h : Silent link old) : wanted link old = [] := by
  induction old with
  | nil => rfl
  | cons m rest ih =>
    rw [wanted_cons (h m (List.mem_cons_self))]
    exact ih fun m' hm' => h m' (List.mem_cons_of_mem m hm')

theorem wanted_sends {client : Client} {clock : Clock} {frame : Octets} {r : Request}
    (hr : Request.ofFrame? frame = some r) :
    wanted link (⟨client, clock, .sends link frame⟩ :: old) = r.apply (wanted link old) := by
  simp only [wanted, if_true, hr, Option.elim]

end

namespace World

variable {τ : Type} {net : Network τ} {w : World τ}

theorem extends_noted {d : Deed} (hd : d.IsMute) : Extends Deed.IsMute w.history (w.noted d).history :=
  Extends.refl.cons hd

theorem retired_of_none (h : w.client.link = none) : w.retired net = w := by
  unfold retired
  rw [h]

theorem retired_history {link : Nat} (h : w.client.link = some link) :
    (w.retired net).history = ⟨(w.dropped net).client, w.clock, .closes link⟩ :: w.history := by
  unfold retired
  rw [h]
  show ⟨(w.dropped net).client, (w.dropped net).clock, Deed.closes link⟩ :: (w.dropped net).history = _
  rw [dropped_clock, dropped_history]

theorem extends_retired : Extends Deed.IsMute w.history (w.retired net).history := by
  unfold retired
  split
  next => exact .refl
  next =>
    have h : Extends Deed.IsMute w.history (w.dropped net).history := by
      rw [dropped_history]
      exact .refl
    exact h.cons trivial

theorem extends_disconnected : Extends Deed.IsMute w.history (w.disconnected net).history :=
  (extends_retired (w := w.cancelled.paced Heartbeat.stop)).cons trivial

theorem extends_closed : Extends Deed.IsMute w.history (w.closed net).history := by
  have h : (w.closed net).history = w.history := dropped_history
  rw [h]
  exact .refl

theorem extends_abandoned : Extends Deed.IsMute w.history (w.abandoned net).history := extends_retired

theorem extends_planned : Extends Deed.IsMute w.history (w.planned net).history := Extends.refl.cons trivial

theorem extends_dialed : Extends Deed.IsMute w.history (w.dialed net).history := by
  unfold dialed
  split
  next => exact (Extends.refl.cons trivial).cons trivial
  all_goals exact Extends.refl.cons trivial

theorem sent_history {frame : Octets} {link : Nat} (h : w.client.link = some link) :
    (w.sent net frame).history = ⟨w.client, w.clock, .sends link frame⟩ :: w.history := by
  unfold sent
  rw [h]
  rfl

theorem sent_of_none {frame : Octets} (h : w.client.link = none) : w.sent net frame = w := by
  unfold sent
  rw [h]

end World

end QuoteFeed
