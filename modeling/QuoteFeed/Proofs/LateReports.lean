import QuoteFeed.Proofs.Finality

/-!
Late reports: a link that has been given up may still call any of the callbacks it was ever given,
and nothing comes of it.
-/

namespace QuoteFeed

variable {β τ : Type} {net : Network τ} {c : Conduct net} {may : Use → Prop} {w : World τ}

/-- The numbers that a link was given before it was given up are behind the present one. -/
theorem Tied.attempt_lt (h : Tied c w) {link attempt : Nat} (hl : w.client.link ≠ some link)
    (ha : attempt ∈ c.attempts link w.outside) : attempt < w.client.attempt := by
  obtain ⟨hle, hcurrent⟩ := h.attempts link attempt ha
  have hne : attempt ≠ w.client.attempt := fun he => hl (hcurrent he)
  omega

theorem receive_of_ne {emit : Event → Step (Stage β (World τ)) Unit} {s : Stage β (World τ)} {attempt : Nat}
    (h : attempt ≠ s.rest.client.attempt) (r : Report) :
    (Client.receive net emit attempt r).outcome s = some (.ok (), s) := by
  simp only [Client.receive, Client.current, Step.outcome_bind, Step.outcome_get, Step.outcome_pure, if_neg h]

/-- Wherever a client is seen, by its user or by a consumer at any depth: a report that comes by a
callback of any link but the current one changes nothing and is not told to anybody, whatever
callback it is. -/
theorem late_report_inert {s : Stage β (World τ)} (h : Seen c may s) {link : Nat}
    (hl : s.rest.client.link ≠ some link) (index : Nat) (r : Report)
    (emit : Event → Step (Stage β (World τ)) Unit) :
    ((Use.report link index r).perform c emit).outcome s = some (.ok (), s) := by
  simp only [Use.perform, Step.outcome_bind, Step.outcome_get]
  cases ha : (c.attempts link s.rest.outside)[index]? with
  | none => exact Step.outcome_pure () s
  | some attempt =>
    have hlt : attempt < s.rest.client.attempt := (sound_of_seen h).attempt_lt hl (List.mem_of_getElem? ha)
    exact receive_of_ne (Nat.ne_of_lt hlt) r

namespace ScriptedLinks

/-- A link that will send nothing is awaited. -/
def awaitingRun : Stage Unit (World ScriptedLinks) :=
  played false { sendFails := true } { slots := [{ id := 1, kind := .error, body := () }] } disconnecting
    [.subscribe (octets "A"), .connect]

/-- The link opens, the first frame of the replay is not sent, and somebody is about to hear of it. -/
def hearingRun : Stage Unit (World ScriptedLinks) :=
  ((Use.report 0 0 .opened).perform (conduct false) fun _ => throw .foreign).after awaitingRun

/-- Whoever hears of it has disconnected the client, while the link is still reporting its opening. -/
def retiringRun : Stage Unit (World ScriptedLinks) :=
  (Use.disconnect.perform (conduct false) quietly).after hearingRun

theorem seen_retiringRun : Seen (conduct false) (fun _ => True) retiringRun := by
  have hemit : Consumer (conduct false) (fun _ => True) disconnecting :=
    consumer_quietly.hearing fun _ _ => .act .disconnect trivial
  have hs : Reached (conduct false) (fun _ => True) awaitingRun :=
    reached_played (conduct_blank (by decide) rfl (by decide)) hemit fun _ _ => trivial
  have hheard : ((Use.report 0 0 .opened).perform (conduct false) (breakingOff hearingRun disconnecting)).outcome
      awaitingRun = some (.error .foreign, hearingRun) := by
    decide +kernel
  have hretired : (Use.disconnect.perform (conduct false) quietly).outcome hearingRun = some (.ok (), retiringRun) := by
    decide +kernel
  have hseen : Seen (conduct false) (fun _ => True) hearingRun :=
    .during (.between hs) hemit (breaksOff_breakingOff _ _) trivial hheard
  exact hseen.acting consumer_quietly (.act .disconnect trivial) hretired

theorem retiringRun_unmoved :
    (conduct false).attempts 0 retiringRun.rest.outside = [1] ∧
      ((Use.report 0 0 .closed).perform (conduct false) disconnecting).outcome retiringRun =
        some (.ok (), retiringRun) :=
  ⟨by decide +kernel, late_report_inert seen_retiringRun (by decide +kernel) 0 .closed disconnecting⟩

end ScriptedLinks

end QuoteFeed
