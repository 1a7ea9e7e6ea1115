import QuoteFeed.Proofs.Failures
import QuoteFeed.Proofs.Parting

/-!
The course of an attempt whose link reports while it is started, with observers only.
-/

namespace QuoteFeed

variable {β τ : Type} {net : Network τ} {c : Conduct net} {may : Use → Prop}

/-- How an attempt stands. It is stuck once its link has opened and could not be asked for anything. -/
inductive Standing where
  | awaited
  | opened
  | lost
  | stuck
deriving DecidableEq

namespace Standing

def next (watchlist : Watchlist) : Standing → Report → Standing
  | awaited, .opened => if watchlist.ids.all Utf8.wellFormed then opened else stuck
  | awaited, .closed | opened, .closed => lost
  | standing, _ => standing

/-- How an attempt stands after some reports. -/
def after (watchlist : Watchlist) (reports : List Report) : Standing := reports.foldl (next watchlist) awaited

theorem foldl_stuck (watchlist : Watchlist) (reports : List Report) :
    reports.foldl (next watchlist) stuck = stuck := by
  induction reports with
  | nil => rfl
  | cons r reports ih => exact ih

end Standing

/-- Where the client is while an attempt stands like this that began in the first world. -/
def Standing.Holds (w : World τ) : Standing → World τ → Prop
  | awaited, v => v.client.stance = w.client.stance
  | opened, v => v.client.phase = .connected ∧ v.client.link = w.client.link
  | lost, v => v.client.GivenUp
  | stuck, _ => False

/-- The network on which a link that is started gives some reports and then fails, or does not. -/
def Network.playing (net : Network τ) (play : List Report × Option Failure) : Network τ :=
  { net with dial := fun link endpoint t => (play, (net.dial link endpoint t).2) }

/-- No link reports to an attempt if there is no current one. -/
theorem Tied.detached {w : World τ} (h : Tied c w) (hl : w.client.link = none) (link : Nat) :
    net.attached? link w.outside = none :=
  h.attached_eq_none (by simp [hl])

namespace Client

variable (net) in
/-- What a client does about a report to the present attempt. -/
def answer (emit : Event → Step (Stage β (World τ)) Unit) : Report → Step (Stage β (World τ)) Unit
  | .opened => handleOpen net emit
  | .closed => handleClose net emit
  | .error text => tell emit (.error text)
  | .frame payload => receiveFrame net emit payload

variable {emit : Event → Step (Stage β (World τ)) Unit} {s : Stage β (World τ)}

theorem receiveFrom_ends {link : Nat} {r : Report} {Q : Unit → Stage β (World τ) → Prop}
    {E : Failure → Stage β (World τ) → Prop} (ht : Tied c s.rest) (hl : s.rest.client.link = some link)
    (h : (answer net emit r).Ends { s with rest := s.rest.noted (.hears r) } Q E) :
    (receiveFrom net emit link r).Ends s Q E := by
  have ha : net.attached? link s.rest.outside = some s.rest.client.attempt := (ht.attached link _).mpr ⟨hl, rfl⟩
  simp only [receiveFrom, receive, Step.ends_bind, Step.ends_get, ha, ends_current, Step.ends_ite, ends_remember]
  refine ⟨fun _ => ?_, fun hn => absurd trivial hn⟩
  cases r <;> exact h

theorem receiveFrom_of_none {link : Nat} {r : Report} (ht : Tied c s.rest) (hl : s.rest.client.link = none) :
    (receiveFrom net emit link r).outcome s = some (.ok (), s) := by
  simp only [receiveFrom, Step.outcome_bind, Step.outcome_get, ht.detached hl link, Step.outcome_pure]

end Client

section

variable {emit : Event → Step (Stage β (World τ)) Unit} {s : Stage β (World τ)} {w : World τ} {link : Nat}
  {standing : Standing} {r : Report} {E : Failure → Stage β (World τ) → Prop}

theorem Observed.handleOpen_standing (h : Observed c emit) (hs : s.rest.client.stance = w.client.stance)
    (hp : w.client.phase = .connecting) (hfit : c.fit s.rest.outside) :
    (Client.handleOpen net emit).Ends s
      (fun _ t => (Standing.awaited.next w.client.watchlist .opened).Holds w t.rest) fun _ t =>
        Standing.awaited.next w.client.watchlist .opened = .stuck ∧ t.rest.client.phase = .connected := by
  have hwatchlist : s.rest.client.watchlist = w.client.watchlist := congrArg Stance.watchlist hs
  have hphase : s.rest.client.phase = .connecting := (congrArg Stance.phase hs).trans hp
  have hlink : s.rest.client.link = w.client.link := congrArg Stance.link hs
  cases hf : s.rest.client.watchlist.replayFrames with
  | ok frames =>
    have hall : w.client.watchlist.ids.all Utf8.wellFormed = true := by
      refine List.all_eq_true.mpr fun id hid => ?_
      refine eq_true_of_ne_false fun hn => ?_
      obtain ⟨e, he⟩ := Watchlist.exists_replayFrames_error_iff.mpr ⟨id, hwatchlist ▸ hid, hn⟩
      exact absurd (hf.symm.trans he) (by simp)
    have hnext : Standing.awaited.next w.client.watchlist .opened = .opened := if_pos hall
    rw [hnext]
    exact (h.handleOpen hfit hphase hf).mono (fun _ _ ht => ⟨ht.1, ht.2.trans hlink⟩) fun _ _ he => he.elim
  | error e =>
    have hall : ¬w.client.watchlist.ids.all Utf8.wellFormed = true := by
      intro hall
      obtain ⟨id, hid, hn⟩ := Watchlist.exists_replayFrames_error_iff.mp ⟨e, hf⟩
      exact Bool.false_ne_true (hn.symm.trans (List.all_eq_true.mp hall id (hwatchlist ▸ hid)))
    have hnext : Standing.awaited.next w.client.watchlist .opened = .stuck := if_neg hall
    rw [hnext]
    refine (handleOpen_fails hphase hf).mono (fun _ _ ht => ht) ?_
    intro _ t ht
    rw [ht]
    exact ⟨rfl, rfl⟩

/-- A link that has opened opens no second time. -/
theorem handleOpen_again (hp : s.rest.client.phase = .connected) :
    (Client.handleOpen net emit).Ends s (fun _ t => t = s) E := by
  simp only [Client.handleOpen, Step.ends_bind, Client.ends_current, Step.ends_ite, hp, Step.ends_pure]
  exact ⟨Phase.noConfusion, fun _ => trivial⟩

/-- One more report takes the attempt on as it should, or leaves it stuck. -/
theorem Observed.receiveFrom (h : Observed c emit) (hl : w.client.link = some link) (hp : w.client.phase = .connecting)
    (hs : Sound c s.rest) (hstanding : standing.Holds w s.rest) :
    (Client.receiveFrom net emit link r).Ends s (fun _ t => (standing.next w.client.watchlist r).Holds w t.rest)
      fun _ t => standing.next w.client.watchlist r = .stuck ∧ t.rest.client.phase = .connected := by
  cases standing with
  | awaited =>
    have hlink : s.rest.client.link = some link := (congrArg Stance.link hstanding).trans hl
    refine Client.receiveFrom_ends hs.toTied hlink ?_
    cases r with
    | opened => exact h.handleOpen_standing (s := { s with rest := s.rest.noted _ }) hstanding hp hs.fit
    | closed => exact h.handleClose_givenUp
    | error text => exact (h.stays_tell _ _).mono (fun _ _ ht => ht.trans hstanding) fun _ _ he => he.elim
    | frame payload => exact (h.stays_receiveFrame _ _).mono (fun _ _ ht => ht.trans hstanding) fun _ _ he => he.elim
  | opened =>
    have hlink : s.rest.client.link = some link := hstanding.2.trans hl
    have hstays : ∀ t : Stage β (World τ), t.rest.client.stance = s.rest.client.stance →
        Standing.opened.Holds w t.rest := fun t ht =>
      ⟨(congrArg Stance.phase ht).trans hstanding.1, (congrArg Stance.link ht).trans hstanding.2⟩
    refine Client.receiveFrom_ends hs.toTied hlink ?_
    cases r with
    | opened =>
      refine (handleOpen_again (s := { s with rest := s.rest.noted _ }) hstanding.1).mono ?_ fun _ _ he => he
      rintro _ _ rfl
      exact hstanding
    | closed => exact h.handleClose_givenUp
    | error text => exact (h.stays_tell _ _).mono (fun _ t ht => hstays t ht) fun _ _ he => he.elim
    | frame payload => exact (h.stays_receiveFrame _ _).mono (fun _ t ht => hstays t ht) fun _ _ he => he.elim
  | lost =>
    refine (Step.ends_iff_of_outcome (Client.receiveFrom_of_none hs.toTied hstanding.link)).mpr ?_
    exact hstanding
  | stuck => exact hstanding.elim

/-- The reports of a link take the attempt on one after another. A failure leaves it stuck. -/
theorem Observed.receiveAll (h : Observed c emit) (hheeds : (soundness c may).Heeds emit)
    (hl : s.rest.client.link = some link) (hp : s.rest.client.phase = .connecting) (hs : Sound c s.rest)
    (reports : List Report) :
    (reports.forM (Client.receiveFrom net emit link)).Ends s
      (fun _ t => (soundness c may).Keeps s.rest t.rest ∧
        (Standing.after s.rest.client.watchlist reports).Holds s.rest t.rest)
      fun e t => (soundness c may).Keeps s.rest t.rest ∧ e.isStandard = true ∧
        Standing.after s.rest.client.watchlist reports = .stuck ∧ t.rest.client.phase = .connected := by
  let P (rest : List Report) (t : Stage β (World τ)) : Prop := (soundness c may).Keeps s.rest t.rest ∧
    ∃ standing : Standing, standing.Holds s.rest t.rest ∧
      rest.foldl (Standing.next s.rest.client.watchlist) standing = Standing.after s.rest.client.watchlist reports
  refine (Step.ends_forM (P := P) ⟨Discipline.Keeps.refl hs, .awaited, rfl, rfl⟩ ?_).mono ?_ fun _ _ he => he
  · rintro r rest t ⟨hk, standing, hstanding, hafter⟩
    refine ((hheeds.receiveFrom hk).and (h.receiveFrom hl hp hk.1 hstanding)).mono ?_ ?_
    · rintro _ u ⟨hu, hnext⟩
      exact ⟨hu, _, hnext, hafter⟩
    · rintro e u ⟨⟨hu, he⟩, hstuck, hconnected⟩
      rw [List.foldl_cons, hstuck, Standing.foldl_stuck] at hafter
      exact ⟨hu, he, hafter.symm, hconnected⟩
  · rintro _ t ⟨hk, standing, hstanding, hafter⟩
    have hafter' : standing = Standing.after s.rest.client.watchlist reports := hafter
    exact ⟨hk, hafter' ▸ hstanding⟩

end

/-- What starts an attempt: the user, or the end of the wait for a reconnect. -/
inductive Prompt where
  | connect
  | wait (v : Wait)

def Prompt.perform (net : Network τ) (emit : Event → Step (Stage β (World τ)) Unit) :
    Prompt → Step (Stage β (World τ)) Unit
  | connect => Client.connect net emit
  | wait v => Client.fire net emit v

/-- In the first world an attempt is started, which finds the second one. -/
inductive Prompted (w : World τ) : Prompt → World τ → Prop
  | connect : w.client.phase ≠ .connecting → w.client.phase ≠ .connected → Prompted w .connect w
  | wait {v : Wait} {u : World τ} : Lapses w v u → v.timer = .reconnect → v.number = w.client.waitNumber →
      w.client.phase = .reconnectScheduled → Prompted w (.wait v) u

namespace Client

variable (emit : Event → Step (Stage β (World τ)) Unit) {s : Stage β (World τ)} {link : Nat}

/-- What connecting comes to depends on where the client stands. -/
theorem outcome_connect : (connect net emit).outcome s =
    Step.outcome (match s.rest.client.phase with
      | .connecting | .connected => pure ()
      | .reconnectScheduled => do
        cancelReconnect
        startAttempt net emit
      | .idle | .disconnected => do
        change fun c => { c with backoff := c.backoff.reset }
        startAttempt net emit) { s with rest := s.rest.noted .connects } := by
  simp only [connect, Step.outcome_bind, outcome_remember, outcome_current]
  rfl

variable (net) in
/-- An attempt goes by what its link plays, and is undone if that fails. -/
def played (link attempt : Nat) (play : List Report × Option Failure) : Step (Stage β (World τ)) Unit :=
  Step.recover (do
    play.1.forM (receiveFrom net emit link)
    Step.raise play.2) (abandon net emit attempt)

/-- What is played goes on from where the first reports have led, unless one of them has failed. -/
theorem outcome_played_append {attempt : Nat} (reports more : List Report) (failure : Option Failure) :
    (played net emit link attempt (reports ++ more, failure)).outcome s =
      match (reports.forM (receiveFrom net emit link)).outcome s with
      | none => none
      | some (.ok _, t) => (played net emit link attempt (more, failure)).outcome t
      | some (.error e, t) =>
        if e.isStandard then (abandon net emit attempt e).outcome t else some (.error e, t) := by
  have happend : (reports ++ more).forM (receiveFrom net emit link) = (do
      reports.forM (receiveFrom net emit link)
      more.forM (receiveFrom net emit link)) := List.forM_append
  simp only [played, happend, Step.outcome_recover, Step.outcome_bind]
  rcases (reports.forM (receiveFrom net emit link)).outcome s with _ | ⟨_ | _, t⟩ <;> rfl

theorem outcome_played_failing {attempt : Nat} {e : Failure} (he : e.isStandard = true) :
    (played net emit link attempt ([], some e)).outcome s = (abandon net emit attempt e).outcome s := by
  have hfails : (do
      [].forM (receiveFrom net emit link)
      Step.raise (some e)).outcome s = some (.error e, s) := rfl
  rw [played, Step.outcome_recover, hfails]
  simp only [he, if_true]

theorem played_closing_ends (attempt : Nat) {Q : Stage β (World τ) → Prop}
    (h : (receiveFrom net emit link .closed).Ends s (fun _ t => Q t) fun _ _ => False) :
    (played net emit link attempt ([.closed], none)).Ends s (fun _ t => Q t) fun _ _ => False := by
  simp only [played, List.forM, Step.ends_recover, Step.ends_bind, Step.ends_pure, Step.raise, Option.elim]
  exact h.mono (fun _ _ ht => ht) fun _ _ he => he.elim

/-- Starting an attempt comes to what the link plays that is made for it. -/
theorem outcome_startAttempt (hm : (net.create s.rest.outside).1 = .ok (some link)) :
    ∃ t : Stage β (World τ), t.rest = s.rest.dialed net ∧ ∀ play : List Report × Option Failure,
      (startAttempt (net.playing play) emit).outcome s =
        (played net emit link (s.rest.client.attempt + 1) play).outcome t := by
  rw [World.dialed_of_link hm]
  let made := net.create s.rest.outside
  let attached := net.attach link (s.rest.client.attempt + 1) made.2.2
  let journal := made.2.1.reverse ++ s.journal
  refine ⟨{ s with
    rest := (s.rest.asked net).linked net link
    journal := (net.dial link s.rest.client.endpoint attached).2.1.reverse ++ journal }, rfl, ?_⟩
  intro play
  have hcreate : ((net.playing play).create s.rest.outside).1 = .ok (some link) := hm
  simp only [startAttempt, played, dial, Step.outcome_recover, Step.outcome_bind, outcome_change,
    outcome_changeOutside, outcome_current, outcome_outside, hcreate, Step.ofExcept, Step.outcome_pure]
  rfl

end Client

/-- Whatever the network, the client gets ready for the attempt in the same way. -/
theorem Prompted.ready {s : Stage β (World τ)} {w : World τ} {prompt : Prompt} (h : Prompted w prompt s.rest)
    (emit : Event → Step (Stage β (World τ)) Unit) :
    ∃ b t, (b = w ∨ b = w.noted .connects) ∧ Ready b t.rest ∧
      ∀ net : Network τ, (prompt.perform net emit).outcome s = (Client.startAttempt net emit).outcome t := by
  generalize hu : s.rest = u at h
  cases h with
  | connect hc hd =>
    subst hu
    let v : World τ := s.rest.noted .connects
    let t : Stage β (World τ) := { s with rest := { v with client.backoff := v.client.backoff.reset } }
    have hasked : v.client.phase = .idle ∨ v.client.phase = .disconnected → Ready v t.rest := .asked rfl
    simp only [Prompt.perform, Client.outcome_connect]
    cases hp : s.rest.client.phase with
    | connecting => exact absurd hp hc
    | connected => exact absurd hp hd
    | reconnectScheduled =>
      refine ⟨v, { s with rest := v.cancelled }, .inr rfl, .hurried rfl hp, fun net => ?_⟩
      simp only [Step.outcome_bind, Client.outcome_cancelReconnect, v]
    | idle =>
      refine ⟨v, t, .inr rfl, hasked (.inl hp), fun net => ?_⟩
      simp only [Step.outcome_bind, Client.outcome_change, t, v]
    | disconnected =>
      refine ⟨v, t, .inr rfl, hasked (.inr hp), fun net => ?_⟩
      simp only [Step.outcome_bind, Client.outcome_change, t, v]
  | @wait v _ hl ht hn hp =>
    refine ⟨w, s, .inl rfl, hu ▸ .due hl ht hn hp, fun net => ?_⟩
    simp only [Prompt.perform, Client.fire, Step.outcome_bind, Client.outcome_current, ht, hu, hl.client_eq, hn, hp,
      and_self, if_true]

end QuoteFeed
