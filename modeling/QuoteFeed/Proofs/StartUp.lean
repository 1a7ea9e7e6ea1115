import QuoteFeed.Terminal
import QuoteFeed.Proofs.Attempts
import QuoteFeed.Proofs.Delays
import QuoteFeed.Proofs.DesiredOrder
import QuoteFeed.Proofs.Layering

/-!
How the program starts: what its arguments ask for, which settings come of them, and what stands when the first attempt
is started.
-/

namespace QuoteFeed

namespace Invocation

def AsksForHelp (args : List Octets) : Prop := octets "-h" ∈ args ∨ octets "--help" ∈ args

instance (args : List Octets) : Decidable (AsksForHelp args) := inferInstanceAs (Decidable (_ ∨ _))

/-- The arguments besides those that choose the log level. -/
def words (args : List Octets) : List Octets := args.filter fun arg => arg ≠ octets "-v" ∧ arg ≠ octets "-q"

/-- The first of them that is a path to a file with settings. -/
def fileOf (args : List Octets) : Option Octets := (words args).find? isFile

/-- All of them but this one, in order. -/
def marketsOf (args : List Octets) : List Octets := (words args).eraseP isFile

/-- The log level that the last argument chooses that chooses one. -/
def levelOf (args : List Octets) (level : LogLevel) : LogLevel :=
  args.foldl (fun level arg => if arg = octets "-v" then .debug else if arg = octets "-q" then .warn else level) level

variable {args rest : List Octets} {arg : Octets} {v : Invocation}

theorem asksForHelp_cons :
    AsksForHelp (arg :: rest) ↔ (arg = octets "-h" ∨ arg = octets "--help") ∨ AsksForHelp rest := by
  simp only [AsksForHelp, List.mem_cons, @eq_comm _ arg]
  exact or_or_or_comm

theorem words_cons_of_switch (h : arg = octets "-v" ∨ arg = octets "-q") : words (arg :: rest) = words rest := by
  refine List.filter_cons_of_neg ?_
  rw [decide_eq_true_eq, ← not_or]
  exact not_not.mpr h

theorem words_cons_of_word (hv : arg ≠ octets "-v") (hq : arg ≠ octets "-q") :
    words (arg :: rest) = arg :: words rest :=
  List.filter_cons_of_pos (decide_eq_true ⟨hv, hq⟩)

/-- The arguments are gone through in one pass, which comes to what they are when they are looked at as a whole. -/
theorem add_eq (args : List Octets) (v : Invocation) : add args v =
    if AsksForHelp args then none
    else some {
      level := levelOf args v.level
      file := v.file.or (fileOf args)
      markets := v.markets ++ if v.file.isSome then words args else marketsOf args } := by
  induction args generalizing v with
  | nil =>
    obtain ⟨level, file, markets⟩ := v
    cases file <;> simp [add, AsksForHelp, levelOf, fileOf, marketsOf, words]
  | cons arg rest ih =>
    unfold add
    by_cases hhelp : arg = octets "-h" ∨ arg = octets "--help"
    · rw [if_pos hhelp, if_pos (asksForHelp_cons.mpr (.inl hhelp))]
    · rw [if_neg hhelp]
      have hasks : AsksForHelp (arg :: rest) ↔ AsksForHelp rest :=
        asksForHelp_cons.trans ⟨fun h => h.resolve_left hhelp, .inr⟩
      simp only [hasks]
      by_cases hv : arg = octets "-v"
      · rw [if_pos hv, ih, fileOf, marketsOf, fileOf, marketsOf, words_cons_of_switch (.inl hv)]
        simp only [levelOf, List.foldl_cons, if_pos hv]
      · rw [if_neg hv]
        by_cases hq : arg = octets "-q"
        · rw [if_pos hq, ih, fileOf, marketsOf, fileOf, marketsOf, words_cons_of_switch (.inr hq)]
          simp only [levelOf, List.foldl_cons, if_neg hv, if_pos hq]
        · rw [if_neg hq, fileOf, marketsOf, words_cons_of_word hv hq]
          have hlevel : levelOf (arg :: rest) v.level = levelOf rest v.level := by
            simp only [levelOf, List.foldl_cons, if_neg hv, if_neg hq]
          rw [hlevel]
          by_cases hfile : v.file.isNone ∧ isFile arg = true
          · have hnone : v.file = none := Option.isNone_iff_eq_none.mp hfile.1
            rw [if_pos hfile, ih, hnone, List.find?_cons_of_pos hfile.2, List.eraseP_cons_of_pos hfile.2]
            rfl
          · rw [if_neg hfile, ih]
            cases hsome : v.file with
            | none =>
              have hword : ¬isFile arg = true := fun h => hfile ⟨Option.isNone_iff_eq_none.mpr hsome, h⟩
              rw [List.find?_cons_of_neg hword, List.eraseP_cons_of_neg hword]
              simp [fileOf, marketsOf]
            | some path => simp

/-- What arguments ask for: the first path to a file with settings is the file, and the others name instruments. -/
theorem ofArgs_eq (args : List Octets) : ofArgs args =
    if AsksForHelp (args.map Octets.untilNul) then none
    else some {
      level := levelOf (args.map Octets.untilNul) .info
      file := fileOf (args.map Octets.untilNul)
      markets := marketsOf (args.map Octets.untilNul) } := by
  rw [ofArgs, add_eq]
  simp

/-- The settings that a call starts from: those of the file that it names, or the defaults. -/
def loaded (file : Option Octets) (files : Octets → Option Octets) : Except Settings.Error Settings :=
  match file with
  | none => .ok {}
  | some path => Settings.ofFile path (files path)

/-- No usable settings come of a call. -/
inductive Fails (file : Option Octets) (files : Octets → Option Octets) (env : Settings.Environment) : Prop
  | loading {e : Settings.Error} : loaded file files = .error e → Fails file files env
  | environment {s t : Settings} {e : Settings.Error} :
      loaded file files = .ok s → Settings.applyEnvironment env s = (t, some e) → Fails file files env
  | validating {s t : Settings} {e : Settings.Error} : loaded file files = .ok s →
      Settings.applyEnvironment env s = (t, none) → t.validate = .error e → Fails file files env

variable {files : Octets → Option Octets} {env : Settings.Environment} {s t : Settings} {endpoint : Endpoint}

theorem settings_of_loading {e : Settings.Error} (h : loaded v.file files = .error e) :
    v.settings files env = .error e := by
  unfold loaded at h
  unfold settings
  cases hfile : v.file with
  | none =>
    rw [hfile] at h
    cases h
  | some path =>
    rw [hfile] at h
    simp only at h ⊢
    rw [h]
    rfl

theorem settings_of_loaded (h : loaded v.file files = .ok s) : v.settings files env =
    match Settings.applyEnvironment env s with
    | (_, some e) => .error e
    | (t, none) => t.endpoint.map fun endpoint => ({ t with markets := t.markets ++ v.markets }, endpoint) := by
  have hsame : v.settings files env = (do
      match Settings.applyEnvironment env s with
      | (_, some e) => throw e
      | (s, none) =>
        let endpoint ← s.endpoint
        pure ({ s with markets := s.markets ++ v.markets }, endpoint)) := by
    unfold loaded at h
    unfold settings
    cases hfile : v.file with
    | none =>
      rw [hfile] at h
      cases h
      rfl
    | some path =>
      rw [hfile] at h
      simp only at h ⊢
      rw [h]
      rfl
  rw [hsame]
  obtain ⟨t, fault⟩ := Settings.applyEnvironment env s
  cases fault with
  | some e => rfl
  | none =>
    cases hendpoint : t.endpoint with
    | error e => simp [hendpoint, bind, Except.bind, Except.map]
    | ok endpoint => simp [hendpoint, bind, Except.bind, Except.map, pure, Except.pure]

theorem settings_of_fails (h : Fails v.file files env) : ∃ e, v.settings files env = .error e := by
  cases h with
  | loading hload => exact ⟨_, settings_of_loading hload⟩
  | environment hload henv =>
    rw [settings_of_loaded hload, henv]
    exact ⟨_, rfl⟩
  | @validating s t e hload henv hvalid =>
    rw [settings_of_loaded hload, henv]
    cases hendpoint : t.endpoint with
    | error e' =>
      simp only [hendpoint]
      exact ⟨e', rfl⟩
    | ok endpoint =>
      rw [Settings.validate, hendpoint] at hvalid
      cases hvalid

theorem not_fails (hload : loaded v.file files = .ok s) (henv : Settings.applyEnvironment env s = (t, none))
    (hvalid : t.validate = .ok ()) : ¬Fails v.file files env := by
  intro h
  cases h with
  | loading hload' => cases hload.symm.trans hload'
  | environment hload' henv' =>
    cases hload.symm.trans hload'
    cases henv.symm.trans henv'
  | validating hload' henv' hvalid' =>
    cases hload.symm.trans hload'
    cases henv.symm.trans henv'
    cases hvalid.symm.trans hvalid'

theorem settings_of_not_fails (h : ¬Fails v.file files env) : ∃ s t endpoint, loaded v.file files = .ok s ∧
    Settings.applyEnvironment env s = (t, none) ∧ t.endpoint = .ok endpoint ∧
    v.settings files env = .ok ({ t with markets := t.markets ++ v.markets }, endpoint) := by
  cases hload : loaded v.file files with
  | error e => exact absurd (.loading hload) h
  | ok s =>
    obtain ⟨t, henv⟩ : ∃ t, Settings.applyEnvironment env s = (t, none) := by
      rcases henv : Settings.applyEnvironment env s with ⟨t, _ | e⟩
      · exact ⟨t, rfl⟩
      · exact absurd (.environment hload henv) h
    cases hendpoint : t.endpoint with
    | error e => exact absurd (.validating hload henv (by rw [Settings.validate, hendpoint]; rfl)) h
    | ok endpoint =>
      refine ⟨s, t, endpoint, rfl, henv, hendpoint, ?_⟩
      rw [settings_of_loaded hload, henv]
      simp only [hendpoint]
      rfl

end Invocation

theorem Settings.markets_applyEnvironment {env : Settings.Environment} {s t : Settings}
    (h : Settings.applyEnvironment env s = (t, none)) : t.markets = s.markets := by
  have hfollows : Settings.Field.Follows .markets _ s t := (Settings.Layer.lay_ok (l := .environment env) h).2 .markets
  exact (Settings.Value.texts.inj (Except.ok.inj hfollows)).symm

namespace Watchlist

/-- To add some ids one after another is to add each of them when it occurs first. -/
theorem ids_addAll (ids : List Octets) : (ids.foldl (fun w id => (w.add id).2) empty).ids = ids.eraseDups := by
  induction ids using List.reverseRecOn with
  | nil => rfl
  | append_singleton ids id ih =>
    rw [List.foldl_append, List.foldl_cons, List.foldl_nil, List.eraseDups_append]
    by_cases hmem : id ∈ ids
    · have hold : id ∈ (ids.foldl (fun w id => (w.add id).2) empty).ids := ih ▸ List.mem_eraseDups.mpr hmem
      rw [add_eq_of_mem hold, ih]
      simp [List.removeAll, hmem]
    · have hnew : id ∉ (ids.foldl (fun w id => (w.add id).2) empty).ids := ih ▸ mt List.mem_eraseDups.mp hmem
      rw [ids_add hnew, ih]
      simp [List.removeAll, hmem, List.eraseDups_cons]

end Watchlist

namespace Client

variable {β τ : Type} {net : Network τ} {emit : Event → Step (Stage β (World τ)) Unit} {s : Stage β (World τ)}

/-- As long as no link is open, an instrument is asked for of nobody. -/
theorem outcome_subscribe (h : s.rest.client.phase ≠ .connected) (id : Octets) : (subscribe net emit id).outcome s =
    some (.ok (), { s with rest := s.rest.watching fun w => (w.add id).2 }) := by
  by_cases hmem : id ∈ s.rest.client.watchlist.ids
  · simp only [subscribe, Step.outcome_bind, outcome_current, World.watching, Watchlist.add_eq_of_mem hmem]
    rfl
  · simp only [subscribe, Step.outcome_bind, outcome_current, Watchlist.add_isNew_iff.mpr hmem, if_true, outcome_change,
      if_neg h]
    rfl

theorem outcome_subscribeAll (h : s.rest.client.phase ≠ .connected) (ids : List Octets) :
    (ids.forM (subscribe net emit)).outcome s =
      some (.ok (), { s with rest := s.rest.watching fun w => ids.foldl (fun w id => (w.add id).2) w }) := by
  induction ids generalizing s with
  | nil => rfl
  | cons id ids ih =>
    have hcons : (id :: ids).forM (subscribe net emit) = (do
        subscribe net emit id
        ids.forM (subscribe net emit)) := rfl
    rw [hcons, Step.outcome_bind, outcome_subscribe h]
    exact ih h

end Client

namespace Wires

variable {ws : Wires} {w : Nat}

theorem length_dropStream : (ws.dropStream w).wires.length = ws.wires.length := by
  unfold dropStream
  split <;> rfl

/-- A connection that is begun goes to the address that it is given. -/
theorem endpoint_connect (h : w < ws.wires.length) (endpoint : Endpoint) :
    ((ws.connect w endpoint).2.2.wire w).endpoint = endpoint := by
  have hw : w < (ws.dropStream w).wires.length := by rwa [length_dropStream]
  simp [connect, wire, newStream, begin, change, hw]

end Wires

/-- The call that an entry shows, if it shows one. -/
def Entry.call? : Entry → Option Call
  | call c => some c
  | _ => none

/-- All that a run shows. -/
def RunResult.shown (r : RunResult) : List Entry := r.steps.flatten ++ r.last.getD []

namespace Terminal

open Invocation

variable {s : Terminal}

/-- The network makes a link whenever it is asked for one, and starting it asks for the address of the endpoint. -/
theorem outcome_startAttempt (s : Terminal) : (Client.startAttempt network print).outcome s = some (.ok (), { s with
    rest := s.rest.dialed network
    journal := .call (.resolve s.rest.client.endpoint.host s.rest.client.endpoint.port) ::
      .call (.stream s.rest.client.endpoint.tls) :: s.journal }) := by
  simp only [Client.startAttempt, Client.dial, Step.outcome_recover, Step.outcome_bind, Client.outcome_change,
    Client.outcome_current, Client.outcome_outside]
  rfl

theorem outcome_connect (h : s.rest.client.phase = .idle) : (Client.connect network print).outcome s =
    (Client.startAttempt network print).outcome
      { s with rest := { s.rest.noted .connects with client.backoff := s.rest.client.backoff.reset } } := by
  simp only [Client.outcome_connect, h, Step.outcome_bind, Client.outcome_change]
  rfl

theorem outcome_log (level : LogLevel) (text : Octets) : ∃ logged : List Entry,
    (∀ e ∈ logged, ∃ l t, e = .log l t) ∧
      (log level text).outcome s = some (.ok (), { s with journal := logged ++ s.journal }) := by
  by_cases hpass : LogLevel.passes s.rest.outside.level level = true
  · refine ⟨[.log level text], ?_, ?_⟩
    · intro e he
      exact ⟨level, text, List.mem_singleton.mp he⟩
    · simp only [log, Step.outcome_bind, Step.outcome_get, hpass, if_true]
      rfl
  · refine ⟨[], by simp, ?_⟩
    simp only [log, Step.outcome_bind, Step.outcome_get, hpass]
    rfl

/-- The first attempt has just been started: it goes to this address, and these instruments are wanted. -/
structure Started (endpoint : Endpoint) (ids : List Octets) (s : Terminal) : Prop where
  dials : ∃ link, s.rest.history.map Moment.deed = [.dials link, .asks, .connects] ∧
    (s.rest.outside.wires.wire link).endpoint = endpoint
  wants : ∀ m ∈ s.rest.history, m.client.watchlist.ids = ids
  calls : s.journal.filterMap Entry.call? = [.resolve endpoint.host endpoint.port, .stream endpoint.tls]

/-- A new attempt is that of a new connection, which goes to the address of the client. -/
theorem endpoint_dialed (w : World Surroundings) :
    ((w.dialed network).outside.wires.wire w.outside.wires.wires.length).endpoint = w.client.endpoint := by
  refine Wires.endpoint_connect ?_ w.client.endpoint
  show w.outside.wires.wires.length < ((w.outside.wires.wires ++ [({} : Wire)]).modify _ _).length
  rw [List.length_modify, List.length_append]
  exact Nat.lt_succ_self _

theorem filterMap_call_logged {logged : List Entry} (h : ∀ e ∈ logged, ∃ l t, e = .log l t) :
    logged.filterMap Entry.call? = [] := by
  refine List.filterMap_eq_nil_iff.mpr fun e he => ?_
  obtain ⟨l, t, rfl⟩ := h e he
  rfl

/-- The program asks its client for the instruments of the settings before it connects, and may log that there are
none. -/
theorem outcome_work (h : s.rest.client.phase = .idle) (happenings : List Happening) :
    ∃ logged : List Entry, (∀ e ∈ logged, ∃ l t, e = .log l t) ∧
      (work happenings).outcome s = (do
        Client.connect network print
        run happenings []).outcome { s with
          rest := s.rest.watching fun w => s.rest.client.settings.markets.foldl (fun w id => (w.add id).2) w
          journal := logged ++ s.journal } := by
  have hasks := @Client.outcome_subscribeAll _ _ network print s (by simp [h])
    s.rest.client.settings.markets
  simp only [work, Step.outcome_bind, Client.outcome_current, hasks]
  generalize s.rest.watching _ = asking
  by_cases hempty : asking.client.watchlist.isEmpty = true
  · obtain ⟨logged, hlogged, hlog⟩ := outcome_log (s := { s with rest := asking }) .warn
      (octets "no markets given, connection will only carry heartbeats")
    refine ⟨logged, hlogged, ?_⟩
    simp only [if_pos hempty, Step.outcome_bind, hlog]
  · refine ⟨[], by simp, ?_⟩
    simp only [if_neg hempty, Step.outcome_bind]
    rfl

/-- Before the program waits for anything, it starts the first attempt. -/
theorem exists_started (settings : Settings) (endpoint : Endpoint) (wires : Wires) (level : LogLevel) (epoch : Instant)
    (happenings : List Happening) :
    ∃ begun, Started endpoint settings.markets.eraseDups begun ∧
      (work happenings).outcome (start (Client.ofSettings settings endpoint) wires level epoch) =
        (run happenings []).outcome begun := by
  obtain ⟨logged, hlogged, hwork⟩ :=
    outcome_work (s := start (Client.ofSettings settings endpoint) wires level epoch) rfl happenings
  rw [hwork, Step.outcome_bind, outcome_connect rfl, outcome_startAttempt]
  refine ⟨_, ⟨⟨wires.wires.length, rfl, ?_⟩, ?_, ?_⟩, rfl⟩
  · exact endpoint_dialed _
  · have hwants : (settings.markets.foldl (fun w id => (w.add id).2) Watchlist.empty).ids =
        settings.markets.eraseDups := Watchlist.ids_addAll _
    intro m hm
    rcases hm with _ | ⟨_, _ | ⟨_, _ | ⟨_, hm⟩⟩⟩
    · exact hwants
    · exact hwants
    · exact hwants
    · cases hm
  · show _ :: _ :: (logged ++ []).filterMap Entry.call? = _
    rw [List.append_nil, filterMap_call_logged hlogged]
    rfl

/-- How the program starts. If help is asked for it shows how it is called, and if no usable settings come of the call
it fails; either way nothing is asked of the network. Otherwise a client is made, and the first attempt goes to the
address of the settings. What is wanted then is what the file names and after that what the arguments name, each
instrument where it is named first. -/
theorem starts_as_configured (args : List Octets) (files : Octets → Option Octets) (env : Settings.Environment)
    (wires : Wires) (epoch : Instant) (happenings : List Happening) :
    (AsksForHelp (args.map Octets.untilNul) →
      ∃ result, execute args files env wires epoch happenings = some (.ok result) ∧ result.exit = some 0 ∧
        result.shown.filterMap Entry.call? = []) ∧
    (¬AsksForHelp (args.map Octets.untilNul) → Fails (fileOf (args.map Octets.untilNul)) files env →
      ∃ result, execute args files env wires epoch happenings = some (.ok result) ∧ result.exit = some 2 ∧
        result.shown.filterMap Entry.call? = []) ∧
    (¬AsksForHelp (args.map Octets.untilNul) → ¬Fails (fileOf (args.map Octets.untilNul)) files env →
      ∃ s t endpoint client begun, loaded (fileOf (args.map Octets.untilNul)) files = .ok s ∧
        Settings.applyEnvironment env s = (t, none) ∧ Endpoint.parse t.url = .ok endpoint ∧
        Client.create { t with markets := t.markets ++ marketsOf (args.map Octets.untilNul) } true = .ok client ∧
        execute args files env wires epoch happenings = ((work happenings).outcome
          (start client wires (levelOf (args.map Octets.untilNul) .info) epoch)).map Prod.fst ∧
        (work happenings).outcome (start client wires (levelOf (args.map Octets.untilNul) .info) epoch) =
          (run happenings []).outcome begun ∧
        Started endpoint (s.markets ++ marketsOf (args.map Octets.untilNul)).eraseDups begun) := by
  have hargs := ofArgs_eq args
  generalize args.map Octets.untilNul = argv at hargs ⊢
  refine ⟨fun hhelp => ?_, fun hhelp hfails => ?_, fun hhelp hfails => ?_⟩
  · rw [if_pos hhelp] at hargs
    refine ⟨{ exit := some 0, steps := [], last := some [.output usage] }, ?_, rfl, rfl⟩
    rw [execute, hargs]
    rfl
  · rw [if_neg hhelp] at hargs
    obtain ⟨e, he⟩ := settings_of_fails (v := ⟨levelOf argv .info, fileOf argv, marketsOf argv⟩) hfails
    let line := octets "configuration error: " ++ e.message.untilNul
    refine ⟨{ exit := some 2, steps := [], last := some [.log .error line] }, ?_, rfl, rfl⟩
    rw [execute, hargs]
    simp only [he]
    rfl
  · rw [if_neg hhelp] at hargs
    obtain ⟨s, t, endpoint, hloaded, henv, hendpoint, hsettings⟩ :=
      settings_of_not_fails (v := ⟨levelOf argv .info, fileOf argv, marketsOf argv⟩) hfails
    obtain ⟨begun, hstarted, hwork⟩ := exists_started { t with markets := t.markets ++ marketsOf argv } endpoint wires
      (levelOf argv .info) epoch happenings
    have hcreated : Client.create { t with markets := t.markets ++ marketsOf argv } true =
        .ok (Client.ofSettings { t with markets := t.markets ++ marketsOf argv } endpoint) := by
      -- Which instruments there are does not matter to whether settings can be used.
      have hsame : Settings.endpoint { t with markets := t.markets ++ marketsOf argv } = .ok endpoint := hendpoint
      rw [Client.create, hsame]
      rfl
    have hmarkets : t.markets = s.markets := Settings.markets_applyEnvironment henv
    obtain ⟨-, -, -, -, -, hparse⟩ := Settings.endpoint_eq_ok_iff.mp hendpoint
    refine ⟨s, t, endpoint, _, begun, hloaded, henv, hparse, hcreated, ?_, hwork, ?_⟩
    · rw [execute, hargs]
      simp only [hsettings]
    · rwa [← hmarkets]

/-- A file with an address and an instrument that it names twice; there is no other file. -/
def fewFiles (path : Octets) : Option Octets :=
  if path = octets "a.json" then some (octets "\x7b\"url\":\"ws://h/p\",\"markets\":[\"A\",\"A\"]\x7d") else none

def fewVariables : Settings.Environment := [(octets "FEEDLINE_RECONNECT_BASE_MS", octets "500")]

/-- Arguments with a file, further instruments, one of which looks like a file, and repetitions. -/
def fewArgs : List Octets :=
  [octets "-v", octets "B", octets "a.json", octets "b.json", octets "A", octets "-q", octets "B"]

theorem fewArgs_start :
    (∃ result, execute (octets "--help" :: fewArgs) fewFiles fewVariables {} default [.signal 2] = some (.ok result) ∧
      result.exit = some 0 ∧ result.shown.filterMap Entry.call? = []) ∧
    (∃ result, execute [octets "b.json"] fewFiles fewVariables {} default [.signal 2] = some (.ok result) ∧
      result.exit = some 2 ∧ result.shown.filterMap Entry.call? = []) ∧
    ∃ begun, Started { tls := false, host := octets "h", port := octets "80", target := octets "/p" }
        [octets "A", octets "B", octets "b.json"] begun ∧
      execute fewArgs fewFiles fewVariables {} default [.signal 2] =
        ((run [.signal 2] []).outcome begun).map Prod.fst := by
  refine ⟨?_, ?_, ?_⟩
  · obtain ⟨hhelp, -, -⟩ :=
      starts_as_configured (octets "--help" :: fewArgs) fewFiles fewVariables {} default [.signal 2]
    exact hhelp (by decide)
  · obtain ⟨-, hfails, -⟩ := starts_as_configured [octets "b.json"] fewFiles fewVariables {} default [.signal 2]
    have hfile : fileOf ([octets "b.json"].map Octets.untilNul) = some (octets "b.json") := by decide
    refine hfails (by decide) (hfile ▸ .loading (e := .noFile (octets "b.json")) rfl)
  · obtain ⟨-, -, hstarts⟩ := starts_as_configured fewArgs fewFiles fewVariables {} default [.signal 2]
    have hfile : fileOf (fewArgs.map Octets.untilNul) = some (octets "a.json") := by decide
    have hloaded : loaded (some (octets "a.json")) fewFiles =
        .ok { url := octets "ws://h/p", markets := [octets "A", octets "A"] } := by decide +kernel
    have henv : Settings.applyEnvironment fewVariables
          { url := octets "ws://h/p", markets := [octets "A", octets "A"] } =
        ({ url := octets "ws://h/p", reconnectBase := 500, markets := [octets "A", octets "A"] }, none) := by
      decide +kernel
    rw [hfile] at hstarts
    obtain ⟨s, t, endpoint, client, begun, hs, ht, hparse, -, hexecute, hwork, hstarted⟩ :=
      hstarts (by decide) (not_fails (v := ⟨.info, some (octets "a.json"), []⟩) hloaded henv (by decide +kernel))
    cases hloaded.symm.trans hs
    cases henv.symm.trans ht
    have hendpoint : Endpoint.parse (octets "ws://h/p") =
        .ok { tls := false, host := octets "h", port := octets "80", target := octets "/p" } := by decide +kernel
    cases hendpoint.symm.trans hparse
    have hids : ([octets "A", octets "A"] ++ marketsOf (fewArgs.map Octets.untilNul)).eraseDups =
        [octets "A", octets "B", octets "b.json"] := by decide
    exact ⟨begun, hids ▸ hstarted, hexecute.trans (congrArg (Option.map Prod.fst) hwork)⟩

end Terminal

end QuoteFeed
