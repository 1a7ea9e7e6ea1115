import QuoteFeed.Proofs.Ends
import QuoteFeed.Proofs.Gives
import QuoteFeed.Proofs.Schedule
import QuoteFeed.Proofs.Waits

/-!
A heartbeat keeps its schedule, whatever is asked of it, from outside or while a ping is handled, and however
time passes: the one wait that is armed while it runs ends when the next ping is due. This is so for all
intervals whose nanoseconds 64 bits can hold, and for no others.
-/

namespace QuoteFeed

/-- A pulse that comes from outside; an interval is at least a millisecond, and not above some limit. -/
def Pulse.IsAsked (limit : Int) : Pulse → Prop
  | start interval => 0 < interval ∧ interval ≤ limit
  | refresh | stop => True
  | ping => False

theorem Pulse.IsAsked.ne_ping {limit : Int} {p : Pulse} (h : p.IsAsked limit) : p ≠ .ping := by
  rintro rfl
  exact h

/-- What is to be heard of some pulses: of each ping, when it came. -/
def Pulse.heard (history : List (Int × Pulse)) : List Entry :=
  history.filterMap fun pulse => if pulse.2 = .ping then some (.ping pulse.1) else none

theorem Pulse.heard_append (later earlier : List (Int × Pulse)) :
    heard (later ++ earlier) = heard later ++ heard earlier :=
  List.filterMap_append

/-- An operation that asks a heartbeat for something, as does everything that is laid down with it. -/
inductive HeartbeatOp.Asks (limit : Int) : HeartbeatOp → Prop
  | start {interval : Int} {heard : Bool} {plan : List (Nat × HeartbeatOp)} :
      0 < interval → interval ≤ limit → (∀ entry ∈ plan, Asks limit entry.2) →
      Asks limit (.start interval heard plan)
  | refresh : Asks limit .refresh
  | stop : Asks limit .stop

/-- An operation from outside: it asks for something, or time passes. -/
def HeartbeatOp.IsUse (limit : Int) (op : HeartbeatOp) : Prop := op.Asks limit ∨ ∃ ms, 0 ≤ ms ∧ op = .advance ms

/-- An operation after which pings are heard of, as they are after everything that is laid down with it. It takes
no time. -/
inductive HeartbeatOp.IsHeard : HeartbeatOp → Prop
  | start {interval : Int} {plan : List (Nat × HeartbeatOp)} :
      (∀ entry ∈ plan, IsHeard entry.2) → IsHeard (.start interval true plan)
  | refresh : IsHeard .refresh
  | stop : IsHeard .stop

namespace HeartbeatSession

/-- Whatever is laid down for a ping asks for something. -/
def OnlyAsks (limit : Int) (s : HeartbeatSession) : Prop := ∀ entry ∈ s.plan, entry.2.Asks limit

/-- A session that differs by what has been asked of its heartbeat, and in what has nothing to do with it. -/
inductive Asked (limit : Int) (s : HeartbeatSession) : HeartbeatSession → Prop
  | refl : Asked limit s s
  | felt {t : HeartbeatSession} {p : Pulse} : Asked limit s t → p.IsAsked limit → Asked limit s (t.felt p)
  | aside {t u : HeartbeatSession} :
      Asked limit s t → u.heartbeat = t.heartbeat → u.clock = t.clock → u.history = t.history → Asked limit s u

/-- A program that deals with the heartbeat by starting, refreshing and stopping it only. It may fail anywhere. -/
def Asking (limit : Int) {α : Type} (x : Step HeartbeatSession α) : Prop :=
  ∀ s, Step.Preserves (fun t => t.OnlyAsks limit ∧ Asked limit s t) x

/-- Pings are heard of, and will be after whatever is laid down. -/
structure Hears (s : HeartbeatSession) : Prop where
  heard : s.heard = true
  plan : ∀ entry ∈ s.plan, entry.2.IsHeard

/-- A callback that notes when it is called, and nothing else, where pings are heard of. -/
def Notes (callback : Step HeartbeatSession Unit) : Prop :=
  ∀ s r t, s.Hears → callback.outcome s = some (r, t) → t.Hears ∧ t.journal = .ping s.clock.now :: s.journal

/-- What can become of a session: its heartbeat is used, time passes, and waits end late of which another one has
taken the place. Since calls may fail anywhere, this includes what is found in the midst of a call. -/
inductive Leads (limit : Int) : HeartbeatSession → HeartbeatSession → Prop
  | refl {s : HeartbeatSession} : Leads limit s s
  | use {s t u : HeartbeatSession} {α : Type} {x : Step HeartbeatSession α} {r : Except Failure α} :
      Leads limit s t → Asking limit x → x.outcome t = some (r, u) → Leads limit s u
  | pass {s t u : HeartbeatSession} {callback : Step HeartbeatSession Unit} {ms : Int} {r : Except Failure Unit} :
      Leads limit s t → Asking limit callback → 0 ≤ ms → (HeartbeatSession.pass callback ms).outcome t = some (r, u) →
      Leads limit s u
  | late {s t u v : HeartbeatSession} {callback : Step HeartbeatSession Unit} {w : Wait} {r : Except Failure Unit} :
      Leads limit s t → w ∈ t.clock.waits → Leads limit t u → w ∉ u.clock.waits →
      (fire callback w).outcome u = some (r, v) → Leads limit s v

/-- One wait is armed while the heartbeat runs, for the time of the next ping, and none otherwise. -/
structure OnTime (s : HeartbeatSession) : Prop where
  waits : s.clock.waits = (Pulse.armed s.history).toList.map fun arming =>
    { timer := .heartbeat, number := s.heartbeat.generation, due := arming.1 + arming.2 }
  running : s.heartbeat.running = (Pulse.armed s.history).isSome
  ahead : ∀ instant interval, Pulse.armed s.history = some (instant, interval) →
    s.heartbeat.interval = interval ∧ s.clock.now < instant + interval
  counted : s.heartbeat.pings = s.history.countP fun pulse => pulse.2 = .ping
  punctual : Pulse.Punctual s.history
  past : ∀ last ∈ s.history.head?, last.1 ≤ s.clock.now

variable {s t u : HeartbeatSession} {p : Pulse} {limit instant interval target : Int}

theorem OnTime.of_mem (h : s.OnTime) {w : Wait} (hw : w ∈ s.clock.waits) :
    w.timer = .heartbeat ∧ w.number = s.heartbeat.generation := by
  rw [h.waits] at hw
  obtain ⟨arming, -, rfl⟩ := List.mem_map.mp hw
  exact ⟨rfl, rfl⟩

theorem OnTime.cancel (h : s.OnTime) : (s.clock.cancel .heartbeat).waits = [] := by
  refine List.filter_eq_nil_iff.mpr fun w hw => ?_
  simp [(h.of_mem hw).1]

theorem OnTime.timely (h : s.OnTime) (hlimit : limit ≤ Clock.reach) (hp : p.IsAsked limit) :
    Pulse.Timely s.clock.now p s.history where
  ping hping := absurd hping hp.ne_ping
  other _ instant interval ha := (h.ahead instant interval ha).2
  later := h.past
  lasting interval hstart := by
    subst hstart
    exact ⟨hp.1, hp.2.trans hlimit⟩

/-- An arming leaves one wait, whatever it is that has the heartbeat armed. -/
theorem onTime_of_arm {h : Heartbeat} {c : Clock} {history : List (Int × Pulse)} {p : Pulse}
    (hheartbeat : t.heartbeat = (h.arm c).1) (hclock : t.clock = (h.arm c).2)
    (hhistory : t.history = (c.now, p) :: history) (hwaits : (c.cancel .heartbeat).waits = [])
    (harmed : Pulse.armed t.history = some (c.now, h.interval)) (hrunning : h.running = true)
    (hcounted : h.pings = t.history.countP fun pulse => pulse.2 = .ping)
    (hpunctual : Pulse.Punctual ((c.now, p) :: history)) : t.OnTime where
  waits := by
    obtain ⟨hpos, hreach⟩ := hpunctual.lasting (hhistory ▸ harmed)
    rw [hclock, hheartbeat, harmed]
    simp [Heartbeat.arm, Clock.arm, hwaits, Clock.lasting_of_le hpos.le hreach]
  running := by
    rw [hheartbeat, harmed]
    exact hrunning
  ahead a i ha := by
    obtain ⟨rfl, rfl⟩ := Prod.mk.inj (Option.some.inj (harmed.symm.trans ha))
    rw [hheartbeat, hclock]
    exact ⟨rfl, Int.lt_add_of_pos_right _ (hpunctual.pos (hhistory ▸ harmed))⟩
  counted := by
    rw [hheartbeat]
    exact hcounted
  punctual := hhistory ▸ hpunctual
  past last hlast := by
    rw [hhistory] at hlast
    rw [hclock]
    cases hlast
    exact le_refl c.now

theorem onTime_of_none (hnone : Pulse.armed t.history = none) (hwaits : t.clock.waits = [])
    (hrunning : t.heartbeat.running = false)
    (hcounted : t.heartbeat.pings = t.history.countP fun pulse => pulse.2 = .ping)
    (hpunctual : Pulse.Punctual t.history) (hpast : ∀ last ∈ t.history.head?, last.1 ≤ t.clock.now) : t.OnTime where
  waits := by
    rw [hwaits, hnone]
    rfl
  running := by
    rw [hrunning, hnone]
    rfl
  ahead _ _ ha := absurd (hnone.symm.trans ha) (Option.some_ne_none _).symm
  counted := hcounted
  punctual := hpunctual
  past := hpast

theorem OnTime.runs (h : s.OnTime) (ha : Pulse.armed s.history = some (instant, interval)) :
    s.heartbeat.running = true := by
  rw [h.running, ha]
  rfl

theorem OnTime.waits_nil (h : s.OnTime) (hr : s.heartbeat.running = false) : s.clock.waits = [] := by
  cases ha : Pulse.armed s.history with
  | none =>
    rw [h.waits, ha]
    rfl
  | some arming =>
    rw [h.running, ha] at hr
    exact absurd hr Bool.noConfusion

theorem now_felt : (s.felt p).clock.now = s.clock.now := by
  cases p with
  | start interval => rfl
  | refresh =>
    show (s.heartbeat.refresh s.clock).2.now = _
    unfold Heartbeat.refresh
    split <;> rfl
  | stop =>
    show (s.heartbeat.stop s.clock).2.now = _
    unfold Heartbeat.stop
    split <;> rfl
  | ping => rfl

/-- The pings so far, when something else comes. -/
theorem OnTime.counted_felt (h : s.OnTime) (hp : p.IsAsked limit) :
    s.heartbeat.pings = (s.felt p).history.countP fun pulse => pulse.2 = .ping :=
  h.counted.trans (List.countP_cons_of_neg (by simpa using hp.ne_ping)).symm

theorem past_felt : ∀ last ∈ (s.felt p).history.head?, last.1 ≤ (s.felt p).clock.now := by
  intro last hlast
  cases hlast
  exact now_felt.ge

theorem OnTime.punctual_felt (h : s.OnTime) (hlimit : limit ≤ Clock.reach) (hp : p.IsAsked limit) :
    Pulse.Punctual (s.felt p).history :=
  ⟨h.timely hlimit hp, h.punctual⟩

theorem OnTime.start (h : s.OnTime) (hlimit : limit ≤ Clock.reach) (hp : (Pulse.start interval).IsAsked limit) :
    (s.felt (.start interval)).OnTime :=
  onTime_of_arm rfl rfl rfl h.cancel rfl rfl (h.counted_felt hp) (h.punctual_felt hlimit hp)

theorem OnTime.refresh (h : s.OnTime) : (s.felt .refresh).OnTime := by
  have hp : Pulse.refresh.IsAsked Clock.reach := trivial
  cases ha : Pulse.armed s.history with
  | none =>
    have hr : s.heartbeat.running = false := by
      rw [h.running, ha]
      rfl
    have hsame : s.heartbeat.feel .refresh s.clock = (s.heartbeat, s.clock) := if_neg (by simp [hr])
    have hnone : Pulse.armed (s.felt .refresh).history = none := by simp [felt, Pulse.armed, ha]
    refine onTime_of_none hnone ?_ ?_ ?_ (h.punctual_felt (Int.le_refl _) hp) past_felt
    · exact (congrArg (fun f => f.2.waits) hsame).trans (h.waits_nil hr)
    · exact (congrArg (fun f => f.1.running) hsame).trans hr
    · exact (congrArg (fun f => f.1.pings) hsame).trans (h.counted_felt hp)
  | some arming =>
    obtain ⟨instant, interval⟩ := arming
    have hr : s.heartbeat.running = true := h.runs ha
    have harm : s.heartbeat.feel .refresh s.clock = s.heartbeat.arm s.clock := if_pos hr
    have harmed : Pulse.armed (s.felt .refresh).history = some (s.clock.now, s.heartbeat.interval) := by
      simp [felt, Pulse.armed, ha, (h.ahead instant interval ha).1]
    exact onTime_of_arm (congrArg Prod.fst harm) (congrArg Prod.snd harm) rfl h.cancel harmed hr (h.counted_felt hp)
      (h.punctual_felt (Int.le_refl _) hp)

theorem OnTime.stop (h : s.OnTime) : (s.felt .stop).OnTime := by
  have hp : Pulse.stop.IsAsked Clock.reach := trivial
  have hpings : (s.felt .stop).heartbeat.pings = s.heartbeat.pings := by
    show (s.heartbeat.stop s.clock).1.pings = _
    unfold Heartbeat.stop
    split <;> rfl
  have hwaits : (s.felt .stop).clock.waits = [] := by
    show (s.heartbeat.stop s.clock).2.waits = _
    unfold Heartbeat.stop
    split
    next => exact h.cancel
    next hr => exact h.waits_nil (Bool.not_eq_true _ ▸ hr)
  exact onTime_of_none rfl hwaits Heartbeat.stop_running (hpings.trans (h.counted_felt hp))
    (h.punctual_felt (Int.le_refl _) hp) past_felt

theorem OnTime.felt (h : s.OnTime) (hlimit : limit ≤ Clock.reach) (hp : p.IsAsked limit) : (s.felt p).OnTime := by
  cases p with
  | start interval => exact h.start hlimit hp
  | refresh => exact h.refresh
  | stop => exact h.stop
  | ping => exact hp.elim

/-- The session when the wait for a ping has come to its end. -/
def ended (instant : Int) (s : HeartbeatSession) : HeartbeatSession :=
  { s with clock := { now := instant, waits := [] } }

/-- The ping that is due. -/
theorem OnTime.ping (h : s.OnTime) (ha : Pulse.armed s.history = some (instant, interval)) :
    ((s.ended (instant + interval)).felt .ping).OnTime := by
  obtain ⟨rfl, hnow⟩ := h.ahead instant interval ha
  have hr : s.heartbeat.running = true := h.runs ha
  have htimely : Pulse.Timely (instant + s.heartbeat.interval) .ping s.history := {
    ping := fun _ => ⟨instant, _, ha, rfl⟩
    other := fun hne => absurd rfl hne
    later := fun last hlast => (h.past last hlast).trans hnow.le
    lasting := fun _ hstart => Pulse.noConfusion hstart }
  refine onTime_of_arm rfl rfl rfl rfl (Pulse.armed_ping ha) hr ?_ ⟨htimely, h.punctual⟩
  exact (congrArg (· + 1) h.counted).trans (List.countP_cons_of_pos (by simp)).symm

/-- The wait is armed, or another one has been armed since. -/
def Former (w : Wait) (s : HeartbeatSession) : Prop :=
  w.number < s.heartbeat.generation ∨ w.number = s.heartbeat.generation ∧ w ∈ s.clock.waits

theorem OnTime.former (h : s.OnTime) {w : Wait} (hw : w ∈ s.clock.waits) : Former w s := .inr ⟨(h.of_mem hw).2, hw⟩

theorem Former.le {w : Wait} (h : Former w s) : w.number ≤ s.heartbeat.generation := by
  obtain hlt | ⟨heq, -⟩ := h
  · exact hlt.le
  · exact heq.le

/-- A pulse changes nothing, or a wait gets a new number. -/
theorem feel_eq_or (p : Pulse) (h : Heartbeat) (c : Clock) :
    h.feel p c = (h, c) ∨ (h.feel p c).1.generation = h.generation + 1 := by
  cases p with
  | start interval => exact .inr rfl
  | refresh =>
    show h.refresh c = (h, c) ∨ (h.refresh c).1.generation = h.generation + 1
    unfold Heartbeat.refresh
    split
    · exact .inr rfl
    · exact .inl rfl
  | stop =>
    show h.stop c = (h, c) ∨ (h.stop c).1.generation = h.generation + 1
    unfold Heartbeat.stop
    split
    · exact .inr rfl
    · exact .inl rfl
  | ping => exact .inr rfl

theorem Former.felt {w : Wait} (h : Former w s) : Former w (s.felt p) := by
  obtain hsame | hnext := feel_eq_or p s.heartbeat s.clock
  · have hheartbeat : (s.felt p).heartbeat = s.heartbeat := congrArg Prod.fst hsame
    have hclock : (s.felt p).clock = s.clock := congrArg Prod.snd hsame
    unfold Former
    rw [hheartbeat, hclock]
    exact h
  · exact .inl ((Nat.lt_succ_of_le h.le).trans_eq hnext.symm)

theorem Former.ping {w : Wait} (h : Former w s) : Former w ((s.ended instant).felt .ping) :=
  .inl (Nat.lt_succ_of_le h.le)

/-- A wait is not listened to any more once another one has been armed. -/
theorem Former.expects {w : Wait} (h : Former w s) (hw : w ∉ s.clock.waits) : s.heartbeat.expects w = false := by
  have hlt : w.number < s.heartbeat.generation := h.resolve_right fun hsame => hw hsame.2
  simp [Heartbeat.expects, Nat.ne_of_lt hlt]

theorem Asked.now (h : Asked limit s t) : t.clock.now = s.clock.now := by
  induction h with
  | refl => rfl
  | felt _ _ ih => exact now_felt.trans ih
  | aside _ _ hclock _ ih => rw [hclock, ih]

theorem Asked.onTime (h : Asked limit s t) (hlimit : limit ≤ Clock.reach) (hs : s.OnTime) : t.OnTime := by
  induction h with
  | refl => exact hs
  | felt _ hp ih => exact ih.felt hlimit hp
  | aside _ hheartbeat hclock hhistory ih =>
    refine ⟨?_, ?_, ?_, ?_, ?_, ?_⟩
    · rw [hheartbeat, hclock, hhistory]; exact ih.waits
    · rw [hheartbeat, hhistory]; exact ih.running
    · rw [hheartbeat, hclock, hhistory]; exact ih.ahead
    · rw [hheartbeat, hhistory]; exact ih.counted
    · rw [hhistory]; exact ih.punctual
    · rw [hclock, hhistory]; exact ih.past

theorem Asked.former {w : Wait} (h : Asked limit s t) (hs : Former w s) : Former w t := by
  induction h with
  | refl => exact hs
  | felt _ _ ih => exact ih.felt
  | aside _ hheartbeat hclock _ ih =>
    unfold Former
    rw [hheartbeat, hclock]
    exact ih

/-- No ping comes from asking for something. -/
theorem Asked.unheard (h : Asked limit s t) : ∃ later, t.history = later ++ s.history ∧ Pulse.heard later = [] := by
  induction h with
  | refl => exact ⟨[], rfl, rfl⟩
  | @felt t p _ hp ih =>
    obtain ⟨later, hhistory, hnone⟩ := ih
    refine ⟨(t.clock.now, p) :: later, congrArg (_ :: ·) hhistory, ?_⟩
    rw [Pulse.heard, List.filterMap_cons, if_neg hp.ne_ping]
    exact hnone
  | aside _ _ _ hhistory ih =>
    rw [hhistory]
    exact ih

/-- What has come of a session is as sound as the session was. -/
structure Follows (limit : Int) (s t : HeartbeatSession) : Prop where
  asks : t.OnlyAsks limit
  onTime : t.OnTime
  former : ∀ w, Former w s → Former w t

theorem Follows.trans (h : Follows limit s t) (h' : Follows limit t u) : Follows limit s u where
  asks := h'.asks
  onTime := h'.onTime
  former w hw := h'.former w (h.former w hw)

/-- Pings are still heard of, and the journal tells of those that have come. -/
structure Told (s t : HeartbeatSession) : Prop where
  hears : t.Hears
  noted : ∃ later, t.history = later ++ s.history ∧ t.journal = Pulse.heard later ++ s.journal

theorem Told.trans (h : Told s t) (h' : Told t u) : Told s u := by
  obtain ⟨later, hhistory, hjournal⟩ := h.noted
  obtain ⟨later', hhistory', hjournal'⟩ := h'.noted
  refine ⟨h'.hears, later' ++ later, ?_, ?_⟩
  · rw [hhistory', hhistory, List.append_assoc]
  · rw [hjournal', hjournal, Pulse.heard_append, List.append_assoc]

theorem Told.of_same (h : s.Hears) (hheard : t.heard = s.heard) (hplan : t.plan = s.plan)
    (hhistory : t.history = s.history) (hjournal : t.journal = s.journal) : Told s t :=
  ⟨⟨hheard ▸ h.heard, hplan ▸ h.plan⟩, [], hhistory, hjournal⟩

section

variable {α : Type} {x : Step HeartbeatSession α} {r : Except Failure α} {callback : Step HeartbeatSession Unit}

theorem Asking.asked (hx : Asking limit x) (hasks : s.OnlyAsks limit) (h : x.outcome s = some (r, t)) :
    t.OnlyAsks limit ∧ Asked limit s t :=
  (hx s).left ⟨hasks, .refl⟩ h

theorem Asking.follows (hx : Asking limit x) (hlimit : limit ≤ Clock.reach) (hasks : s.OnlyAsks limit) (hs : s.OnTime)
    (h : x.outcome s = some (r, t)) : Follows limit s t ∧ t.clock.now = s.clock.now := by
  obtain ⟨ht, hasked⟩ := hx.asked hasks h
  exact ⟨⟨ht, hasked.onTime hlimit hs, fun _ hw => hasked.former hw⟩, hasked.now⟩

theorem due_or_idle (s : HeartbeatSession) (target : Int) :
    (∃ instant interval, Pulse.armed s.history = some (instant, interval) ∧ instant + interval ≤ target) ∨
      ∀ instant interval, Pulse.armed s.history = some (instant, interval) → target < instant + interval := by
  by_cases hdue : ∃ instant interval, Pulse.armed s.history = some (instant, interval) ∧ instant + interval ≤ target
  · exact .inl hdue
  · exact .inr fun instant interval ha => not_le.mp fun hle => hdue ⟨instant, interval, ha, hle⟩

/-- No wait ends for now. -/
theorem outcome_passTo_none {fuel : Nat} (hnext : s.clock.next? target = none) :
    (place.passTo (fun _ => false) (fire callback) target (fuel + 1)).outcome s =
      some (.ok (), { s with clock := { s.clock with now := target } }) := by
  simp [ClockIn.passTo, Step.outcome_bind, place, hnext]

/-- No ping is due for now. -/
theorem outcome_passTo_idle (h : s.OnTime) {fuel : Nat}
    (hidle : ∀ instant interval, Pulse.armed s.history = some (instant, interval) → target < instant + interval) :
    (place.passTo (fun _ => false) (fire callback) target (fuel + 1)).outcome s =
      some (.ok (), { s with clock := { s.clock with now := target } }) := by
  refine outcome_passTo_none ?_
  unfold Clock.next?
  rw [h.waits]
  cases ha : Pulse.armed s.history with
  | none => rfl
  | some arming => simp [Clock.first?, hidle arming.1 arming.2 ha]

/-- The one wait that is armed ends with a ping. -/
theorem outcome_passTo_armed {due : Int} {fuel : Nat}
    (hwaits : s.clock.waits = [{ timer := .heartbeat, number := s.heartbeat.generation, due }])
    (hr : s.heartbeat.running = true) (hdue : due ≤ target) :
    (place.passTo (fun _ => false) (fire callback) target (fuel + 1)).outcome s =
      (do callback; place.passTo (fun _ => false) (fire callback) target fuel : Step HeartbeatSession Unit).outcome
        ((s.ended due).felt .ping) := by
  have hnext : s.clock.next? target = some { timer := .heartbeat, number := s.heartbeat.generation, due } := by
    unfold Clock.next?
    rw [hwaits]
    simp [Clock.first?, hdue]
  have hcancel : (s.clock.cancel .heartbeat).waits = [] := by simp [Clock.cancel, hwaits]
  have hended : place.withClock (s.clock.expire { timer := .heartbeat, number := s.heartbeat.generation, due }) s =
      s.ended due :=
    congrArg (fun waits => { s with clock := { now := due, waits } }) hcancel
  have hexpects : (s.ended due).heartbeat.expects
      { timer := .heartbeat, number := s.heartbeat.generation, due } = true := by
    simp [Heartbeat.expects, ended, hr]
  simp only [ClockIn.passTo, Step.outcome_bind, Step.outcome_get, Bool.false_eq_true, if_false]
  rw [show place.clock s = s.clock from rfl, hnext]
  simp only [Step.outcome_bind, Step.outcome_set, hended, fire, Step.outcome_get, hexpects, and_self, if_true, ping,
    feel, Step.outcome_modify]

/-- The next ping comes when it is due. -/
theorem outcome_passTo_due (h : s.OnTime) {fuel : Nat} (ha : Pulse.armed s.history = some (instant, interval))
    (hdue : instant + interval ≤ target) :
    (place.passTo (fun _ => false) (fire callback) target (fuel + 1)).outcome s =
      (do callback; place.passTo (fun _ => false) (fire callback) target fuel : Step HeartbeatSession Unit).outcome
        ((s.ended (instant + interval)).felt .ping) := by
  refine outcome_passTo_armed ?_ (h.runs ha) hdue
  rw [h.waits, ha]
  rfl

theorem Follows.ping (hasks : s.OnlyAsks limit) (h : s.OnTime)
    (ha : Pulse.armed s.history = some (instant, interval)) :
    Follows limit s ((s.ended (instant + interval)).felt .ping) :=
  ⟨hasks, h.ping ha, fun _ hw => hw.ping⟩

theorem Follows.idle (hasks : s.OnlyAsks limit) (h : s.OnTime) (hle : s.clock.now ≤ target)
    (hidle : ∀ instant interval, Pulse.armed s.history = some (instant, interval) → target < instant + interval) :
    Follows limit s { s with clock := { s.clock with now := target } } where
  asks := hasks
  onTime := {
    waits := h.waits
    running := h.running
    ahead := fun a i ha => ⟨(h.ahead a i ha).1, hidle a i ha⟩
    counted := h.counted
    punctual := h.punctual
    past := fun last hlast => (h.past last hlast).trans hle }
  former _ hw := hw

section

variable (hlimit : limit ≤ Clock.reach)
include hlimit

theorem follows_passTo (hcallback : Asking limit callback) (hasks : s.OnlyAsks limit) (hs : s.OnTime)
    (hle : s.clock.now ≤ target) {fuel : Nat} {r : Except Failure Unit}
    (h : (place.passTo (fun _ => false) (fire callback) target fuel).outcome s = some (r, t)) : Follows limit s t := by
  induction fuel generalizing s with
  | zero => exact absurd h (Option.some_ne_none _).symm
  | succ fuel ih =>
    obtain ⟨instant, interval, ha, hdue⟩ | hidle := due_or_idle s target
    · have hping := Follows.ping hasks hs ha
      rw [outcome_passTo_due hs ha hdue, Step.outcome_bind] at h
      split at h
      next => cases h
      next u hu =>
        obtain ⟨hfollows, hnow⟩ := hcallback.follows hlimit hping.asks hping.onTime hu
        exact (hping.trans hfollows).trans (ih hfollows.asks hfollows.onTime (hnow.trans_le hdue) h)
      next e u hu =>
        cases h
        exact hping.trans (hcallback.follows hlimit hping.asks hping.onTime hu).1
    · rw [outcome_passTo_idle hs hidle] at h
      cases h
      exact .idle hasks hs hle hidle

/-- A callback that notes when it is called notes every ping, when it comes, and nothing else. -/
theorem told_passTo (hcallback : Asking limit callback) (hnotes : Notes callback) (hasks : s.OnlyAsks limit)
    (hs : s.OnTime) (hhears : s.Hears) (hle : s.clock.now ≤ target) {fuel : Nat} {r : Except Failure Unit}
    (h : (place.passTo (fun _ => false) (fire callback) target fuel).outcome s = some (r, t)) : Told s t := by
  induction fuel generalizing s with
  | zero => exact absurd h (Option.some_ne_none _).symm
  | succ fuel ih =>
    obtain ⟨instant, interval, ha, hdue⟩ | hidle := due_or_idle s target
    · have hping := Follows.ping hasks hs ha
      have hcalled : ∀ r u, callback.outcome ((s.ended (instant + interval)).felt .ping) = some (r, u) → Told s u := by
        intro r u hu
        obtain ⟨later, hhistory, hnone⟩ := (hcallback.asked hping.asks hu).2.unheard
        obtain ⟨huhears, hjournal⟩ :=
          hnotes ((s.ended (instant + interval)).felt .ping) r u ⟨hhears.heard, hhears.plan⟩ hu
        refine ⟨huhears, later ++ [(instant + interval, .ping)], ?_, ?_⟩
        · rw [hhistory, List.append_assoc]
          rfl
        · rw [hjournal, Pulse.heard_append, hnone]
          rfl
      rw [outcome_passTo_due hs ha hdue, Step.outcome_bind] at h
      split at h
      next => cases h
      next u hu =>
        obtain ⟨hfollows, hnow⟩ := hcallback.follows hlimit hping.asks hping.onTime hu
        have htold : Told s u := hcalled _ u hu
        exact htold.trans (ih hfollows.asks hfollows.onTime htold.hears (hnow.trans_le hdue) h)
      next e u hu =>
        cases h
        exact hcalled _ t hu
    · rw [outcome_passTo_idle hs hidle] at h
      cases h
      exact .of_same hhears rfl rfl rfl rfl

end

theorem outcome_pass {ms : Int} : (pass callback ms).outcome s =
    (place.passTo (fun _ => false) (fire callback) (s.clock.now + ms) (ms.toNat + 2)).outcome s := by
  simp only [pass, Step.outcome_bind, Step.outcome_get]

/-- A wait whose place another one has taken is not heard. -/
theorem outcome_fire_of_former {w : Wait} (h : Former w s) (hw : w ∉ s.clock.waits) :
    (fire callback w).outcome s = some (.ok (), s) := by
  simp [fire, Step.outcome_bind, h.expects hw]

end

theorem Leads.follows (h : Leads limit s t) (hlimit : limit ≤ Clock.reach) (hasks : s.OnlyAsks limit) (hs : s.OnTime) :
    Follows limit s t := by
  induction h with
  | refl => exact ⟨hasks, hs, fun _ hw => hw⟩
  | use _ hx hout ih =>
    have ht := ih hasks hs
    exact ht.trans (hx.follows hlimit ht.asks ht.onTime hout).1
  | pass _ hcallback hms hout ih =>
    have ht := ih hasks hs
    rw [outcome_pass] at hout
    exact ht.trans (follows_passTo hlimit hcallback ht.asks ht.onTime (Int.le_add_of_nonneg_right hms) hout)
  | late _ hw _ hgone hout iht ihu =>
    have ht := iht hasks hs
    have hu := ihu ht.asks ht.onTime
    rw [outcome_fire_of_former (hu.former _ (ht.onTime.former hw)) hgone] at hout
    cases hout
    exact ht.trans hu

/-- The armed waits that the heartbeat listens to. -/
def live (s : HeartbeatSession) : List Wait :=
  s.clock.waits.filter fun w => w.timer = .heartbeat ∧ w.number = s.heartbeat.generation

theorem asking_feel (hp : p.IsAsked limit) : Asking limit (feel p) :=
  fun _ => Step.preserves_modify fun _ ht => ⟨ht.1, ht.2.felt hp⟩

theorem asking_perform {op : HeartbeatOp} (hop : op.Asks limit) (depth : Nat) : Asking limit (perform depth op) := by
  intro s
  cases depth with
  | zero => exact Step.preserves_exhausted
  | succ depth =>
    cases hop with
    | start hpos hle hplan =>
      refine (asking_feel (p := .start _) ⟨hpos, hle⟩ s).bind fun _ => Step.preserves_modify fun t ht => ?_
      exact ⟨hplan, ht.2.aside rfl rfl rfl⟩
    | refresh => exact asking_feel (p := .refresh) trivial s
    | stop => exact asking_feel (p := .stop) trivial s

theorem asking_planned {perform : HeartbeatOp → Step HeartbeatSession Unit}
    (hperform : ∀ op, op.Asks limit → Asking limit (perform op)) : Asking limit (planned perform) := by
  intro s
  have hnoted : Step.Preserves (fun t => t.OnlyAsks limit ∧ Asked limit s t) (modify noted) :=
    Step.preserves_modify fun t ht => ⟨ht.1, ht.2.aside rfl rfl rfl⟩
  refine Step.preserves_look fun t ht => Step.ends_ite.mpr ⟨fun _ => ?_, fun _ => Step.ends_pure.mpr ht⟩
  refine hnoted.bind (fun _ => Step.preserves_look fun u hu => ?_) t ht
  split
  next op hop =>
    obtain ⟨before, after, hplan, -⟩ := List.lookup_eq_some_iff.mp hop
    have hmem : (u.sinceStart, op) ∈ u.plan := hplan ▸ List.mem_append_right before List.mem_cons_self
    exact hperform op (hu.1 _ hmem) s u hu
  next => exact Step.ends_pure.mpr hu

theorem leads_of_perform {op : HeartbeatOp} (hop : op.IsUse limit) {depth : Nat} {r : Except Failure Unit}
    (h : Leads limit s t) (hx : (perform depth op).outcome t = some (r, u)) : Leads limit s u := by
  obtain hasks | ⟨ms, hms, rfl⟩ := hop
  · exact h.use (asking_perform hasks depth) hx
  · cases depth with
    | zero => cases hx
    | succ depth => exact h.pass (asking_planned fun op hop => asking_perform hop depth) hms hx

theorem hears_perform {op : HeartbeatOp} (hop : op.IsHeard) (hs : s.Hears) {depth : Nat} {r : Except Failure Unit}
    (h : (perform depth op).outcome s = some (r, t)) : t.Hears ∧ t.journal = s.journal := by
  cases depth with
  | zero => cases h
  | succ depth =>
    cases hop with
    | start hplan =>
      cases h
      exact ⟨⟨rfl, hplan⟩, rfl⟩
    | refresh =>
      cases h
      exact ⟨⟨hs.heard, hs.plan⟩, rfl⟩
    | stop =>
      cases h
      exact ⟨⟨hs.heard, hs.plan⟩, rfl⟩

/-- What is laid down notes each ping, and does the rest without a note. -/
theorem notes_planned (depth : Nat) : Notes (planned (perform depth)) := by
  intro s r t hs h
  have hnoted : (noted s).Hears := ⟨hs.heard, hs.plan⟩
  simp only [planned, Step.outcome_bind, Step.outcome_get, hs.heard, if_true, Step.outcome_modify] at h
  split at h
  next op hop =>
    obtain ⟨before, after, hplan, -⟩ := List.lookup_eq_some_iff.mp hop
    have hmem : ((noted s).sinceStart, op) ∈ (noted s).plan := hplan ▸ List.mem_append_right before List.mem_cons_self
    exact hears_perform (hnoted.plan _ hmem) hnoted h
  next =>
    cases h
    exact ⟨hnoted, rfl⟩

theorem told_perform (hlimit : limit ≤ Clock.reach) {op : HeartbeatOp} (hop : op.IsUse limit)
    (hheard : op.Asks limit → op.IsHeard) (hasks : s.OnlyAsks limit) (hs : s.OnTime) (hhears : s.Hears) {depth : Nat}
    {r : Except Failure Unit} (h : (perform depth op).outcome s = some (r, t)) : Told s t := by
  obtain hop | ⟨ms, hms, rfl⟩ := hop
  · obtain ⟨later, hhistory, hnone⟩ := ((asking_perform hop depth).asked hasks h).2.unheard
    obtain ⟨ht, hjournal⟩ := hears_perform (hheard hop) hhears h
    refine ⟨ht, later, hhistory, ?_⟩
    rw [hjournal, hnone]
    rfl
  · cases depth with
    | zero => cases h
    | succ depth =>
      have hcallback : Asking limit (planned (perform depth)) := asking_planned fun op hop => asking_perform hop depth
      have hpass := outcome_pass.symm.trans h
      exact told_passTo hlimit hcallback (notes_planned depth) hasks hs hhears (Int.le_add_of_nonneg_right hms) hpass

/-- What a session comes to by some operations. -/
def played (s : HeartbeatSession) : List HeartbeatOp → HeartbeatSession
  | [] => s
  | op :: rest =>
    match (perform 2 op).outcome s with
    | some (_, t) => played t rest
    | none => s

theorem Leads.played {ops : List HeartbeatOp} (hops : ∀ op ∈ ops, op.IsUse limit) (h : Leads limit s t) :
    Leads limit s (t.played ops) := by
  induction ops generalizing t with
  | nil => exact h
  | cons op rest ih =>
    unfold HeartbeatSession.played
    split
    next u hu =>
      exact ih (fun other hother => hops other (List.mem_cons_of_mem _ hother))
        (leads_of_perform (hops op List.mem_cons_self) h hu)
    next => exact h

/-- A session in which pings are heard of throughout has noted every ping, when it came, and nothing else. -/
theorem told_played (hlimit : limit ≤ Clock.reach) {ops : List HeartbeatOp} (hops : ∀ op ∈ ops, op.IsUse limit)
    (hheard : ∀ op ∈ ops, op.Asks limit → op.IsHeard) (hasks : s.OnlyAsks limit) (hs : s.OnTime) (hhears : s.Hears) :
    Told s (s.played ops) := by
  induction ops generalizing s with
  | nil => exact .of_same hhears rfl rfl rfl rfl
  | cons op rest ih =>
    have hop : op.IsUse limit := hops op List.mem_cons_self
    unfold HeartbeatSession.played
    split
    next r t ht =>
      have htold : Told s t := told_perform hlimit hop (hheard op List.mem_cons_self) hasks hs hhears ht
      have hfollows : Follows limit s t := (leads_of_perform hop .refl ht).follows hlimit hasks hs
      refine htold.trans (ih ?_ ?_ hfollows.asks hfollows.onTime htold.hears)
      · exact fun other hother => hops other (List.mem_cons_of_mem _ hother)
      · exact fun other hother => hheard other (List.mem_cons_of_mem _ hother)
    next => exact .of_same hhears rfl rfl rfl rfl

/-- The first ping has the next one put off, the second one starts with another interval, and the third one stops. -/
def hurried : HeartbeatOp := .start 100 true [(1, .refresh), (2, .start 40 true [(1, .stop)])]

end HeartbeatSession

end QuoteFeed
