import QuoteFeed.Proofs.Runs
import QuoteFeed.ScriptedLinks

/-!
Scripted links behave as a client relies on, as long as none of their moves breaks.
-/

namespace QuoteFeed

namespace ScriptedLinks

/-- No move breaks, and if links are to be quiet, no sending fails. -/
structure Fit (quiet : Bool) (s : ScriptedLinks) : Prop where
  moves : .breaks ∉ s.moves
  links : ∀ l ∈ s.links, .breaks ∉ l.moves
  sends : quiet = true → s.sendFails = false

theorem attached_changeLink {link other : Nat} {f : ScriptedLink → ScriptedLink} {s : ScriptedLinks} :
    network.attached? other (changeLink link f s) =
      if other = link then s.links[link]?.bind fun l => (f l).attached else network.attached? other s := by
  by_cases h : other = link
  · subst h
    simp only [network, changeLink, List.getElem?_modify_eq, if_true]
    cases s.links[other]? <;> rfl
  · simp [network, changeLink, h, Ne.symm h]

/-- Every attempt that a link has ever reported to, the last one first. -/
def attempts (link : Nat) (s : ScriptedLinks) : List Nat :=
  (s.links[link]?.map ScriptedLink.attempts).getD []

theorem attempts_changeLink {link other : Nat} {f : ScriptedLink → ScriptedLink} {s : ScriptedLinks} :
    attempts other (changeLink link f s) =
      if other = link then (s.links[link]?.map fun l => (f l).attempts).getD [] else attempts other s := by
  by_cases h : other = link
  · subst h
    simp only [attempts, changeLink, List.getElem?_modify_eq, if_true]
    cases s.links[other]? <;> rfl
  · simp [attempts, changeLink, h, Ne.symm h]

theorem Fit.changeLink {quiet : Bool} {s : ScriptedLinks} {link : Nat} {f : ScriptedLink → ScriptedLink}
    (h : s.Fit quiet) (hf : ∀ l, (f l).moves = l.moves) : (changeLink link f s).Fit quiet := by
  refine ⟨h.moves, ?_, h.sends⟩
  intro l hl
  obtain ⟨k, hk⟩ := List.mem_iff_getElem?.mp hl
  simp only [ScriptedLinks.changeLink, List.getElem?_modify] at hk
  split at hk
  · obtain ⟨m, hm, rfl⟩ := Option.map_eq_some_iff.mp hk
    rw [hf]
    exact h.links m (List.mem_of_getElem? hm)
  · obtain ⟨m, hm, rfl⟩ := Option.map_eq_some_iff.mp hk
    exact h.links m (List.mem_of_getElem? hm)

/-- Moves that do not break fail in a way that describes itself. -/
theorem play_standard {moves : List DialMove} (h : .breaks ∉ moves) {e : Failure} (he : (play moves).2 = some e) :
    e.isStandard = true := by
  induction moves with
  | nil => simp [play] at he
  | cons m rest ih =>
    have hrest : .breaks ∉ rest := fun hr => h (List.mem_cons_of_mem m hr)
    cases m with
    | opens => exact ih hrest he
    | closes => exact ih hrest he
    | errs => exact ih hrest he
    | refuses =>
      cases Option.some.inj he
      rfl
    | breaks => simp at h

theorem attached_create {link : Nat} {s : ScriptedLinks} :
    network.attached? link (create s).2.2 = network.attached? link s := by
  cases hm : s.making with
  | link =>
    rcases Nat.lt_trichotomy link s.links.length with h | h | h
    · simp [network, create, hm, List.getElem?_append_left h]
    · subst h
      simp [network, create, hm]
    · have hnone : (s.links ++ [{ moves := s.moves }])[link]? = none := by
        rw [List.getElem?_eq_none_iff, List.length_append]
        exact h
      simp [network, create, hm, hnone, List.getElem?_eq_none (Nat.le_of_lt h)]
  | failure => simp [network, create, hm]
  | nothing => simp [network, create, hm]

theorem attempts_create {link : Nat} {s : ScriptedLinks} : attempts link (create s).2.2 = attempts link s := by
  cases hm : s.making with
  | link =>
    rcases Nat.lt_trichotomy link s.links.length with h | h | h
    · simp [attempts, create, hm, List.getElem?_append_left h]
    · subst h
      simp [attempts, create, hm, ScriptedLink.attempts]
    · have hnone : (s.links ++ [{ moves := s.moves }])[link]? = none := by
        rw [List.getElem?_eq_none_iff, List.length_append]
        exact h
      simp [attempts, create, hm, hnone, List.getElem?_eq_none (Nat.le_of_lt h)]
  | failure => simp [attempts, create, hm]
  | nothing => simp [attempts, create, hm]

theorem Fit.create {quiet : Bool} {s : ScriptedLinks} (h : s.Fit quiet) : (create s).2.2.Fit quiet := by
  cases hm : s.making with
  | link =>
    refine ⟨by simpa [ScriptedLinks.create, hm] using h.moves, ?_, by simpa [ScriptedLinks.create, hm] using h.sends⟩
    intro l hl
    simp only [ScriptedLinks.create, hm, List.mem_append, List.mem_singleton] at hl
    rcases hl with hl | rfl
    · exact h.links l hl
    · exact h.moves
  | failure => simpa [ScriptedLinks.create, hm] using h
  | nothing => simpa [ScriptedLinks.create, hm] using h

/-- A link that has been made stands behind all those that were there. -/
theorem create_link {link : Nat} {s : ScriptedLinks} (h : (create s).1 = .ok (some link)) :
    link = s.links.length ∧ (create s).2.2.links[link]? = some { moves := s.moves } := by
  cases hm : s.making with
  | link =>
    have hl : s.links.length = link := by simpa [create, hm] using h
    subst hl
    simp [create, hm]
  | failure => simp [create, hm] at h
  | nothing => simp [create, hm] at h

theorem attempts_of_create {link : Nat} {s : ScriptedLinks} (h : (create s).1 = .ok (some link)) :
    attempts link s = [] := by
  obtain ⟨rfl, -⟩ := create_link h
  simp [attempts]

/-- The moves of a link are among those laid down at some time. -/
theorem Fit.moves_of_link {quiet : Bool} {s : ScriptedLinks} (h : s.Fit quiet) (link : Nat) :
    .breaks ∉ (s.links[link]?.map ScriptedLink.moves).getD [] := by
  cases hl : s.links[link]? with
  | none => simp
  | some l => simpa using h.links l (List.mem_of_getElem? hl)

/-- Scripted links behave as a client relies on; if they are to be quiet, no sending of theirs fails
either. -/
def conduct (quiet : Bool) : Conduct network where
  attempts := attempts
  fit := Fit quiet
  attempts_of_attached := by
    intro link attempt s h
    obtain ⟨l, hl, ha⟩ := Option.bind_eq_some_iff.mp h
    simp [attempts, hl, ScriptedLink.attempts, ha]
  alike_create _ := ⟨fun _ => attached_create, fun _ => attempts_create, Fit.create⟩
  alike_dial _ _ _ := ⟨fun _ => rfl, fun _ => rfl, id⟩
  alike_send _ _ _ := ⟨fun _ => rfl, fun _ => rfl, id⟩
  alike_close _ _ := ⟨fun _ => rfl, fun _ => rfl, id⟩
  alike_sample _ _ _ := ⟨fun _ => rfl, fun _ => rfl, id⟩
  attached_attach := by
    intro link s attempt h
    have hl : (network.create s).2.2.links[link]? = _ := (create_link h).2
    rw [show network.attach link attempt = changeLink link (ScriptedLink.attach attempt) from rfl, attached_changeLink,
      hl]
    simp [ScriptedLink.attach]
  attached_attach_of_ne := by
    intro link other attempt s h
    exact attached_changeLink.trans (if_neg h)
  attempts_attach := by
    intro link s attempt h
    have hl : (network.create s).2.2.links[link]? = _ := (create_link h).2
    rw [show network.attach link attempt = changeLink link (ScriptedLink.attach attempt) from rfl, attempts_changeLink,
      hl, attempts_of_create h]
    simp [ScriptedLink.attach, ScriptedLink.attempts]
  attempts_attach_of_ne := by
    intro link other attempt s h
    exact attempts_changeLink.trans (if_neg h)
  fit_attach _ _ h := h.changeLink fun _ => rfl
  attached_detach := by
    intro link s
    refine attached_changeLink.trans ?_
    cases s.links[link]? <;> simp [ScriptedLink.detach]
  attached_detach_of_ne := by
    intro link other s h
    exact attached_changeLink.trans (if_neg h)
  attempts_detach := by
    intro link other s
    refine attempts_changeLink.trans ?_
    split
    next h =>
      subst h
      cases hl : s.links[other]? <;> simp [attempts, hl, ScriptedLink.detach, ScriptedLink.attempts]
    next => rfl
  fit_detach _ h := h.changeLink fun _ => rfl
  standard_create := by
    intro s e _ h
    cases hm : s.making <;> simp [network, create, hm] at h
    subst h
    rfl
  standard_dial h he := play_standard (h.moves_of_link _) he
  standard_send := by
    intro link frame s e _ he
    by_cases hs : s.sendFails = true <;> simp [network, hs] at he
    subst he
    rfl
  standard_close := by
    intro link s e _ he
    by_cases hs : s.closeFails = true <;> simp [network, hs] at he
    subst he
    rfl

theorem conduct_fresh {quiet : Bool} : (conduct quiet).Fresh := fun _ _ => attempts_of_create

theorem conduct_blank {quiet : Bool} {s : ScriptedLinks} (hm : .breaks ∉ s.moves) (hl : s.links = [])
    (hs : quiet = true → s.sendFails = false) : (conduct quiet).Blank s where
  fit := ⟨hm, by simp [hl], hs⟩
  attached _ := by simp [network, hl]
  attempts _ := by simp [conduct, attempts, hl]

end ScriptedLinks

def Client.standard : Client :=
  .ofSettings {} { tls := true, host := octets "localhost", port := octets "8443", target := octets "/ws" }

theorem Client.create_eq_ok {settings : Settings} {client : Client}
    (h : (create settings true).toOption = some client) : create settings true = .ok client := by
  cases hc : create settings true with
  | error e =>
    rw [hc] at h
    exact nomatch h
  | ok client =>
    rw [hc] at h
    exact congrArg Except.ok (Option.some.inj h)

-- The settings hold binary fractions, so that the kernel has to compare the two clients.
theorem Client.create_standard : create {} true = .ok standard := create_eq_ok (by decide +kernel)

namespace ScriptedLinks

variable {quiet : Bool} {emit : Event → Step (Stage Unit (World ScriptedLinks)) Unit}

/-- What the default client comes to on scripted links when it is used. -/
def played (quiet : Bool) (t : ScriptedLinks) (bus : Bus Unit)
    (emit : Event → Step (Stage Unit (World ScriptedLinks)) Unit) (ops : List Use) :
    Stage Unit (World ScriptedLinks) :=
  (Use.performAll (conduct quiet) emit ops).after
    { bus, rest := { client := .standard, outside := t, epoch := default } }

theorem reached_played {may : Use → Prop} {t : ScriptedLinks} {bus : Bus Unit} {ops : List Use}
    (ht : (conduct quiet).Blank t) (hemit : Consumer (conduct quiet) may emit) (hops : ∀ op ∈ ops, may op) :
    Reached (conduct quiet) may (played quiet t bus emit ops) :=
  (Reached.start bus [] default Client.create_standard ht).after hemit (uses_performAll hops)

end ScriptedLinks

end QuoteFeed
