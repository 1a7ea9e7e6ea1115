import QuoteFeed.Proofs.Layers
import QuoteFeed.Proofs.Numerals

/-!
Settings under any number of layers, documents and environments in any order. A layer goes through the fields in
turn, so that what it says of each of them, and where it first fails, is all there is to know of it.
-/

namespace QuoteFeed

namespace Settings

variable {s t : Settings} {e : Error} {env : Environment} {f : Field} {name v : Octets}

/-! ### What an environment says -/

/-- The variables that hold times. -/
def timeVariables : List Octets :=
  [octets "FEEDLINE_RECONNECT_BASE_MS", octets "FEEDLINE_RECONNECT_MAX_MS", octets "FEEDLINE_HEARTBEAT_MS"]

/-- The faults of an environment and of settings that cannot be used. -/
def Error.IsInvalidArgument : Error → Prop
  | environment _ _ | address _ | basePositive | maxBelowBase | heartbeatPositive | stalePositive | moveNegative => True
  | _ => False

namespace Field

/-- The variable of a field. -/
def nameInEnvironment? : Field → Option Octets
  | url => some (octets "FEEDLINE_URL")
  | reconnectBase => some (octets "FEEDLINE_RECONNECT_BASE_MS")
  | reconnectMax => some (octets "FEEDLINE_RECONNECT_MAX_MS")
  | heartbeatInterval => some (octets "FEEDLINE_HEARTBEAT_MS")
  | staleLimit | moveLimit | maxAttempts | markets => none

/-- What a field takes the value of its variable for: the address for itself, a time for the 64-bit integer that it is
the numeral of. -/
def spelled (f : Field) (name v : Octets) : Except Error Value :=
  if f = url then .ok (.text v)
  else
    match numeralInt64? v with
    | some i => .ok (.integer i)
    | none => .error (.environment name v)

/-- What an environment says of a field, if its variable is set: a value or a fault. -/
def inEnvironment (f : Field) (env : Environment) : Option (Except Error Value) :=
  f.nameInEnvironment?.bind fun name => (value? env name).map (f.spelled name)

theorem inEnvironment_of_name (hname : f.nameInEnvironment? = some name) :
    f.inEnvironment env = (value? env name).map (f.spelled name) := by
  rw [inEnvironment, hname]
  rfl

theorem sets_url (env : Environment) : url.Sets (url.inEnvironment env)
    fun s => pure { s with url := (value? env (octets "FEEDLINE_URL")).getD s.url } where
  ok s t h := by
    obtain rfl := Except.ok.inj h
    refine ⟨?_, fun g hg => ?_⟩
    · rw [Follows, inEnvironment_of_name rfl]
      cases value? env (octets "FEEDLINE_URL") <;> rfl
    · cases g <;> first | rfl | exact absurd rfl hg
  error s e h := by cases h

theorem millisOf_eq (hname : f.nameInEnvironment? = some name) (hurl : f ≠ url) (current : Int) :
    (millisOf env name current).map .integer = (f.inEnvironment env).getD (.ok (.integer current)) := by
  rw [inEnvironment_of_name hname, millisOf]
  cases value? env name with
  | none => rfl
  | some v =>
    change Except.map Value.integer ((numeralInt64? v).elim (throw (.environment name v)) pure) = f.spelled name v
    rw [spelled, if_neg hurl]
    cases numeralInt64? v <;> rfl

/-- The time that a field holds. -/
def time (f : Field) (s : Settings) : Int :=
  match f with
  | reconnectBase => s.reconnectBase
  | reconnectMax => s.reconnectMax
  | heartbeatInterval => s.heartbeatInterval
  | _ => 0

/-- Settings with another time in a field. -/
def withTime (f : Field) (i : Int) (s : Settings) : Settings :=
  match f with
  | reconnectBase => { s with reconnectBase := i }
  | reconnectMax => { s with reconnectMax := i }
  | heartbeatInterval => { s with heartbeatInterval := i }
  | _ => s

theorem value_withTime (hname : f.nameInEnvironment? = some name) (hurl : f ≠ url) (i : Int) :
    f.value s = .integer (f.time s) ∧ f.value (f.withTime i s) = .integer i ∧
      ∀ g, g ≠ f → g.value (f.withTime i s) = g.value s := by
  cases f
  case url => exact absurd rfl hurl
  case staleLimit | moveLimit | maxAttempts | markets => cases hname
  all_goals
    refine ⟨rfl, rfl, fun g hg => ?_⟩
    cases g <;> first | rfl | exact absurd rfl hg

/-- A time is set to what its variable says. -/
theorem sets_millisOf (hname : f.nameInEnvironment? = some name) (hurl : f ≠ url) :
    f.Sets (f.inEnvironment env) fun s => do pure (f.withTime (← millisOf env name (f.time s)) s) where
  ok s t h := by
    obtain ⟨i, hi, rfl⟩ := ok_of_updated h
    obtain ⟨hold, hnew, hother⟩ := value_withTime (s := s) hname hurl i
    refine ⟨?_, hother⟩
    rw [Follows, hold, hnew, ← millisOf_eq hname hurl, hi]
    rfl
  error s e h := by
    have hsaid : Except.map Value.integer _ = (f.inEnvironment env).getD _ := millisOf_eq hname hurl (f.time s)
    rw [error_of_updated h] at hsaid
    cases hgiven : f.inEnvironment env with
    | none =>
      rw [hgiven] at hsaid
      cases hsaid
    | some x =>
      rw [hgiven] at hsaid
      exact congrArg some hsaid.symm

/-- A step that does nothing sets a field of which nothing is said. -/
theorem sets_pure (h : f.inEnvironment env = none) : f.Sets (f.inEnvironment env) pure where
  ok s t ht := by
    obtain rfl := Except.ok.inj ht
    rw [h]
    exact ⟨rfl, fun g _ => rfl⟩
  error s e he := by cases he

/-- The steps of an environment, with nothing to do for the fields that have no variable. -/
theorem exists_environment_steps (env : Environment) : ∃ layer, SetInTurn (fun f => f.inEnvironment env) all layer ∧
    ∀ s, applyEnvironment env s = steps layer s := by
  have hbase : reconnectBase.Sets (reconnectBase.inEnvironment env) _ := sets_millisOf rfl (by decide)
  have hmax : reconnectMax.Sets (reconnectMax.inEnvironment env) _ := sets_millisOf rfl (by decide)
  have hheartbeat : heartbeatInterval.Sets (heartbeatInterval.inEnvironment env) _ := sets_millisOf rfl (by decide)
  exact ⟨_, .cons (sets_url env) (.cons hbase (.cons hmax (.cons hheartbeat (.cons (sets_pure rfl)
    (.cons (sets_pure rfl) (.cons (sets_pure rfl) (.cons (sets_pure rfl) .nil))))))), fun s => rfl⟩

end Field

/-! ### Layers -/

/-- A layer of settings: a text that has a document, or an environment. -/
inductive Layer where
  | document (text : Octets)
  | environment (env : Environment)
deriving DecidableEq

namespace Layer

/-- Lays a layer over settings. -/
def lay : Layer → Settings → Outcome
  | document text => applyText text
  | environment env => applyEnvironment env

/-- What is wrong with a layer as a whole: its text cannot be read, or its document is not an object. -/
def fault? : Layer → Option Error
  | document text =>
    match Json.read text with
    | .ok j => if j.isObject then none else some .notObject
    | .error .malformed => some (.malformedText .malformed)
    | .error e => some (.document e)
  | environment _ => none

/-- What a layer says of a field, if it mentions it: a value or a fault. -/
def tells : Layer → Field → Option (Except Error Value)
  | document text, f =>
    match Json.read text with
    | .ok j => f.inDocument j
    | .error _ => none
  | environment env, f => f.inEnvironment env

/-- The layers are laid one after the other, up to the first fault. -/
def layAll (layers : List Layer) (s : Settings) : Except Error Settings :=
  layers.foldlM (fun s l => (l.lay s).result) s

/-- What the last layer that mentions a field says of it. -/
def lastSaid (layers : List Layer) (f : Field) : Option (Except Error Value) :=
  layers.reverse.findSome? fun l => l.tells f

variable {l : Layer} {layers : List Layer} {fault : Option Error}

/-- A layer either has no use as a whole, or sets the fields in turn. -/
theorem lay_cases (l : Layer) : (∃ e, l.fault? = some e ∧ ∀ s, l.lay s = (s, some e)) ∨
    (l.fault? = none ∧ ∃ layer, Field.SetInTurn l.tells Field.all layer ∧ ∀ s, l.lay s = steps layer s) := by
  cases l with
  | environment env => exact .inr ⟨rfl, Field.exists_environment_steps env⟩
  | document text =>
    cases hread : Json.read text with
    | error fault =>
      simp only [fault?, lay, applyText, hread]
      cases fault <;> exact .inl ⟨_, rfl, fun s => rfl⟩
    | ok j =>
      have htells : (document text).tells = fun f => f.inDocument j := by
        funext f
        rw [tells, hread]
      have hlay : ∀ s, (document text).lay s = overlay j s := fun s => applyText_of_read hread
      by_cases hobject : j.isObject = true
      · have hnone : (document text).fault? = none := by
          rw [fault?, hread]
          exact if_pos hobject
        refine .inr ⟨hnone, _, htells ▸ Field.setInTurn_take j Field.all, fun s => ?_⟩
        rw [hlay, overlay_eq hobject]
      · have hsome : (document text).fault? = some .notObject := by
          rw [fault?, hread]
          exact if_neg hobject
        refine .inl ⟨_, hsome, fun s => ?_⟩
        rw [hlay, overlay, if_neg hobject]

theorem lay_ok (h : l.lay s = (t, none)) : l.fault? = none ∧ ∀ f : Field, f.Follows (l.tells f) s t := by
  rcases l.lay_cases with ⟨e, -, hlay⟩ | ⟨hnone, layer, hsets, hlay⟩
  · rw [hlay] at h
    cases h
  · rw [hlay] at h
    exact ⟨hnone, fun f => (Field.steps_ok hsets Field.nodup_all h).1 f f.mem_all⟩

/-- A fault that is not one of the layer as a whole is the first one that the layer says of a field. The fields in front
of this one are what is said of them, and the others are as they were. -/
theorem lay_error (h : l.lay s = (t, some e)) : l.fault? = some e ∧ t = s ∨
    l.fault? = none ∧ ∃ before f after, Field.all = before ++ f :: after ∧ l.tells f = some (.error e) ∧
      (∀ g ∈ before, (∀ e', l.tells g ≠ some (.error e')) ∧ g.Follows (l.tells g) s t) ∧
      ∀ g ∈ f :: after, g.value t = g.value s := by
  rcases l.lay_cases with ⟨e', hsome, hlay⟩ | ⟨hnone, layer, hsets, hlay⟩
  · rw [hlay] at h
    obtain ⟨rfl, he⟩ := Prod.mk.inj h
    exact .inl ⟨hsome.trans he, rfl⟩
  · rw [hlay] at h
    obtain ⟨before, f, after, hall, hsaid, hbefore, hsame⟩ := Field.steps_error hsets Field.nodup_all h
    refine .inr ⟨hnone, before, f, after, hall, hsaid, ?_, ?_⟩
    · intro g hg
      exact ⟨fun e' => (hbefore g hg).not_error, hbefore g hg⟩
    · intro g hg
      apply hsame
      intro hin
      have hnodup := Field.nodup_all
      rw [hall] at hnodup
      exact List.disjoint_of_nodup_append hnodup hin hg

theorem lay_again (h : l.lay s = (t, fault)) : l.lay t = (t, fault) := by
  rcases l.lay_cases with ⟨e, -, hlay⟩ | ⟨-, layer, hsets, hlay⟩
  · rw [hlay] at h ⊢
    obtain ⟨rfl, rfl⟩ := Prod.mk.inj h
    rfl
  · rw [hlay] at h ⊢
    exact Field.steps_again hsets Field.nodup_all h

theorem lay_ok_iff : (∃ t, l.lay s = (t, none)) ↔ l.fault? = none ∧ ∀ f e, l.tells f ≠ some (.error e) := by
  constructor
  · rintro ⟨t, h⟩
    obtain ⟨hnone, hfollows⟩ := lay_ok h
    exact ⟨hnone, fun f e => (hfollows f).not_error⟩
  · rintro ⟨hnone, hgood⟩
    obtain ⟨t, fault, h⟩ : ∃ t fault, l.lay s = (t, fault) := ⟨_, _, rfl⟩
    cases fault with
    | none => exact ⟨t, h⟩
    | some e =>
      rcases lay_error h with ⟨hsome, -⟩ | ⟨-, -, f, -, -, hsaid, -⟩
      · cases hnone.symm.trans hsome
      · exact absurd hsaid (hgood f e)

/-- After any layers, a field is what the last one that mentions it says of it. The induction is on the last layer:
where it does not mention the field, the field is what the layers before it have made of it. -/
theorem follows_of_layAll (h : layAll layers s = .ok t) (f : Field) : f.Follows (lastSaid layers f) s t := by
  induction layers using List.reverseRecOn generalizing t with
  | nil =>
    obtain rfl := Except.ok.inj h
    rfl
  | append_singleton layers l ih =>
    rw [layAll, List.foldlM_append] at h
    cases hbefore : layAll layers s with
    | error e =>
      rw [layAll] at hbefore
      rw [hbefore] at h
      cases h
    | ok u =>
      have hu := ih hbefore
      rw [layAll] at hbefore
      rw [hbefore] at h
      change ((l.lay u).result >>= pure) = .ok t at h
      rw [bind_pure] at h
      have hl := Outcome.result_eq_ok h
      have hlast := (lay_ok hl).2 f
      rw [lastSaid, List.reverse_append]
      change f.Follows ((l :: layers.reverse).findSome? fun l => l.tells f) s t
      rw [List.findSome?_cons]
      cases htells : l.tells f with
      | some x =>
        rw [htells] at hlast
        exact hlast
      | none =>
        rw [htells] at hlast
        exact hu.of_eq rfl (Except.ok.inj hlast)

end Layer

/-! ### Faults of an environment -/

/-- A text that no 64-bit integer has as its numeral. -/
def NoNumeral (v : Octets) : Prop := ¬∃ i, inInt64 i = true ∧ decimalInt i = v

theorem numeralInt64?_eq_none_iff : numeralInt64? v = none ↔ NoNumeral v := by
  constructor
  · rintro h ⟨i, hi⟩
    rw [numeralInt64?_eq_some_iff.mpr hi] at h
    cases h
  · intro h
    cases hnumeral : numeralInt64? v with
    | none => rfl
    | some i => exact absurd ⟨i, numeralInt64?_eq_some_iff.mp hnumeral⟩ h

theorem mem_timeVariables : name ∈ timeVariables ↔ ∃ f : Field, f ≠ .url ∧ f.nameInEnvironment? = some name := by
  constructor
  · intro h
    simp only [timeVariables, List.mem_cons, List.not_mem_nil, or_false] at h
    rcases h with rfl | rfl | rfl
    · exact ⟨.reconnectBase, by decide, rfl⟩
    · exact ⟨.reconnectMax, by decide, rfl⟩
    · exact ⟨.heartbeatInterval, by decide, rfl⟩
  · rintro ⟨f, hurl, hname⟩
    cases f
    case url => exact absurd rfl hurl
    case staleLimit | moveLimit | maxAttempts | markets => cases hname
    all_goals
      obtain rfl := Option.some.inj hname
      simp [timeVariables]

theorem Field.spelled_error_iff :
    f.spelled name v = .error e ↔ f ≠ url ∧ NoNumeral v ∧ e = .environment name v := by
  rw [spelled, ← numeralInt64?_eq_none_iff]
  by_cases hurl : f = url
  · simp [hurl]
  · rw [if_neg hurl]
    cases numeralInt64? v with
    | none => simp [hurl, eq_comm]
    | some i => simp

/-- The fault of an environment in a field: the field has a variable for a time, and it is set to no numeral. -/
theorem Field.inEnvironment_error_iff : f.inEnvironment env = some (.error e) ↔
    ∃ name v, f ≠ url ∧ f.nameInEnvironment? = some name ∧ value? env name = some v ∧ NoNumeral v ∧
      e = .environment name v := by
  constructor
  · intro h
    obtain ⟨name, hname, h⟩ := Option.bind_eq_some_iff.mp h
    obtain ⟨v, hvalue, h⟩ := Option.map_eq_some_iff.mp h
    obtain ⟨hurl, hnot, he⟩ := spelled_error_iff.mp h
    exact ⟨name, v, hurl, hname, hvalue, hnot, he⟩
  · rintro ⟨name, v, hurl, hname, hvalue, hnot, he⟩
    rw [inEnvironment_of_name hname, hvalue]
    exact congrArg some (spelled_error_iff.mpr ⟨hurl, hnot, he⟩)

theorem applyEnvironment_error (h : applyEnvironment env s = (t, some e)) :
    ∃ name ∈ timeVariables, ∃ v, value? env name = some v ∧ NoNumeral v ∧ e = .environment name v := by
  rcases Layer.lay_error (l := .environment env) h with ⟨hsome, -⟩ | ⟨-, -, f, -, -, hsaid, -⟩
  · cases hsome
  · obtain ⟨name, v, hurl, hname, hvalue, hnot, he⟩ := Field.inEnvironment_error_iff.mp hsaid
    exact ⟨name, mem_timeVariables.mpr ⟨f, hurl, hname⟩, v, hvalue, hnot, he⟩

theorem applyEnvironment_error_iff : (∃ t e, applyEnvironment env s = (t, some e)) ↔
    ∃ name ∈ timeVariables, ∃ v, value? env name = some v ∧ NoNumeral v := by
  constructor
  · rintro ⟨t, e, h⟩
    obtain ⟨name, hname, v, hvalue, hnot, -⟩ := applyEnvironment_error h
    exact ⟨name, hname, v, hvalue, hnot⟩
  · rintro ⟨name, hin, v, hvalue, hnot⟩
    obtain ⟨f, hurl, hname⟩ := mem_timeVariables.mp hin
    have hsaid : (Layer.environment env).tells f = some (.error (.environment name v)) :=
      Field.inEnvironment_error_iff.mpr ⟨name, v, hurl, hname, hvalue, hnot, rfl⟩
    obtain ⟨t, fault, h⟩ : ∃ t fault, applyEnvironment env s = (t, fault) := ⟨_, _, rfl⟩
    cases fault with
    | none => exact absurd hsaid ((Layer.lay_ok_iff (l := .environment env).mp ⟨t, h⟩).2 f _)
    | some e => exact ⟨t, e, h⟩

/-! ### What does not count -/

theorem overlay_congr {j j' : Json} (hobject : j.isObject = j'.isObject)
    (h : ∀ f : Field, j.member? f.key = j'.member? f.key) : overlay j s = overlay j' s := by
  have htake : (fun f : Field => f.take j) = fun f => f.take j' := by
    funext f s
    rw [Field.take, Field.take, h]
  rw [overlay, overlay, hobject, htake]

/-- Settings under layers. After any layers without a fault, each field is what the last one that mentions it says of
it. Members under other keys do not count. A layer comes to the same once more. It has a fault just in case there is
something wrong with it as a whole, which changes nothing, or with what it says of a field; then the fields in front of
the first such one are what is said of them, and the others are as they were. An environment fails only by a time that
is set to no 64-bit numeral, and by every such one. -/
theorem layers_overlay (s : Settings) :
    (∀ layers t, Layer.layAll layers s = .ok t → ∀ f : Field, f.Follows (Layer.lastSaid layers f) s t) ∧
    (∀ text text' j j', Json.read text = .ok j → Json.read text' = .ok j' → j.isObject = j'.isObject →
      (∀ f : Field, j.member? f.key = j'.member? f.key) → applyText text s = applyText text' s) ∧
    (∀ (l : Layer) t fault, l.lay s = (t, fault) → l.lay t = (t, fault)) ∧
    (∀ l : Layer, (∃ t, l.lay s = (t, none)) ↔ l.fault? = none ∧ ∀ f e, l.tells f ≠ some (.error e)) ∧
    (∀ (l : Layer) t e, l.lay s = (t, some e) → l.fault? = some e ∧ t = s ∨
      l.fault? = none ∧ ∃ before f after, Field.all = before ++ f :: after ∧ l.tells f = some (.error e) ∧
        (∀ g ∈ before, (∀ e', l.tells g ≠ some (.error e')) ∧ g.Follows (l.tells g) s t) ∧
        ∀ g ∈ f :: after, g.value t = g.value s) ∧
    (∀ env t e, applyEnvironment env s = (t, some e) → e.IsInvalidArgument) ∧
    ∀ env, (∃ t e, applyEnvironment env s = (t, some e)) ↔
      ∃ name ∈ timeVariables, ∃ v, value? env name = some v ∧ NoNumeral v := by
  refine ⟨fun layers t h => Layer.follows_of_layAll h, ?_, fun l t fault h => Layer.lay_again h,
    fun l => Layer.lay_ok_iff, fun l t e h => Layer.lay_error h, ?_, fun env => applyEnvironment_error_iff⟩
  · intro text text' j j' hread hread' hobject h
    rw [applyText_of_read hread, applyText_of_read hread']
    exact overlay_congr hobject h
  · intro env t e h
    obtain ⟨name, -, v, -, -, rfl⟩ := applyEnvironment_error h
    exact trivial

/-- A document with an address, a time and a member that means nothing. -/
def plainText : Octets := octets "\x7b\"url\":\"ws://h/p\",\"reconnect_base_ms\":250,\"x\":1\x7d"

/-- The same without the member that means nothing. -/
def plainerText : Octets := octets "\x7b\"url\":\"ws://h/p\",\"reconnect_base_ms\":250\x7d"

/-- An environment with another time and an empty address. -/
def plainEnvironment : Environment :=
  [(octets "FEEDLINE_URL", []), (octets "FEEDLINE_RECONNECT_BASE_MS", octets "500")]

/-- An environment with a time in another spelling than its own. -/
def paddedEnvironment : Environment :=
  [(octets "FEEDLINE_RECONNECT_BASE_MS", octets "500"), (octets "FEEDLINE_HEARTBEAT_MS", octets "007")]

def plainLayers : List Layer := [.document plainText, .environment plainEnvironment]

def plainSettings : Settings := { url := octets "ws://h/p", reconnectBase := 500 }

theorem plainLayers_overlay :
    (Layer.layAll plainLayers {} = .ok plainSettings ∧
      Layer.lastSaid plainLayers .url = some (.ok (.text (octets "ws://h/p"))) ∧
      Field.Follows .url (Layer.lastSaid plainLayers .url) {} plainSettings) ∧
    applyText plainText {} = applyText plainerText {} ∧
    (Layer.environment plainEnvironment).lay plainSettings = (plainSettings, none) ∧
    (∃ e, applyEnvironment paddedEnvironment {} = ({ reconnectBase := 500 }, some e) ∧ e.IsInvalidArgument ∧
      ∃ before f after, Field.all = before ++ f :: after ∧
        (Layer.environment paddedEnvironment).tells f = some (.error e)) ∧
    ∃ t e, applyEnvironment paddedEnvironment {} = (t, some e) := by
  obtain ⟨hlast, hunknown, -, -, hfirst, hinvalid, hiff⟩ := layers_overlay {}
  obtain ⟨-, -, hagain, -⟩ := layers_overlay { url := octets "ws://h/p", reconnectBase := 250 }
  have hall : Layer.layAll plainLayers {} = .ok plainSettings := by decide +kernel
  have hplain : Json.read plainText = .ok (.object [(octets "reconnect_base_ms", .unsigned 250),
    (octets "url", .text (octets "ws://h/p")), (octets "x", .unsigned 1)]) := rfl
  have hplainer : Json.read plainerText = .ok (.object [(octets "reconnect_base_ms", .unsigned 250),
    (octets "url", .text (octets "ws://h/p"))]) := rfl
  have honce : (Layer.environment plainEnvironment).lay { url := octets "ws://h/p", reconnectBase := 250 } =
      (plainSettings, none) := by decide +kernel
  have hfault : applyEnvironment paddedEnvironment {} = ({ reconnectBase := 500 },
      some (.environment (octets "FEEDLINE_HEARTBEAT_MS") (octets "007"))) := by decide +kernel
  have hnumeral : NoNumeral (octets "007") := numeralInt64?_eq_none_iff.mp (by decide +kernel)
  refine ⟨⟨hall, by decide +kernel, hlast _ _ hall .url⟩, ?_, hagain _ _ _ honce,
    ⟨_, hfault, hinvalid _ _ _ hfault, ?_⟩, ?_⟩
  · exact hunknown _ _ _ _ hplain hplainer rfl fun f => by cases f <;> rfl
  · rcases hfirst (.environment paddedEnvironment) _ _ hfault with ⟨hsome, -⟩ | ⟨-, before, f, after, hsplit, hsaid, -⟩
    · cases hsome
    · exact ⟨before, f, after, hsplit, hsaid⟩
  · exact (hiff _).mpr ⟨octets "FEEDLINE_HEARTBEAT_MS", by decide, octets "007", by decide +kernel, hnumeral⟩

end Settings

end QuoteFeed
