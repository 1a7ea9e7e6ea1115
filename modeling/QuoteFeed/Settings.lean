import QuoteFeed.Endpoint
import QuoteFeed.JsonReader

/-!
Settings of a client, in layers: defaults, a document, the environment. A layer changes what it
mentions. The first fault ends the layer, and what came before the fault stays changed.
-/

namespace QuoteFeed

/-- The settings. Times are in milliseconds; no limit on the attempts is written as zero. -/
structure Settings where
  url : Octets := octets "wss://localhost:8443/ws"
  reconnectBase : Int := 1000
  reconnectMax : Int := 30000
  heartbeatInterval : Int := 30000
  staleLimit : Int := 60000
  moveLimit : Binary64 := .ofInt 5
  maxAttempts : UInt32 := 0
  markets : List Octets := []
deriving DecidableEq

instance : Inhabited Settings := ⟨{}⟩

namespace Settings

inductive Error where
  | notObject
  | notMillis (key : Octets)
  | badValue (error : Json.Error)
  | malformedText (error : Json.Error)
  | document (error : Json.Error)
  | noFile (path : Octets)
  | malformedFile (path : Octets) (error : Json.Error)
  | environment (name value : Octets)
  | address (error : Endpoint.Error)
  | basePositive
  | maxBelowBase
  | heartbeatPositive
  | stalePositive
  | moveNegative
deriving DecidableEq

def Error.message : Error → Octets
  | notObject => octets "config root must be a JSON object"
  | notMillis key => octets "config key '" ++ key ++ octets "' must be an integer (milliseconds)"
  | badValue e => octets "invalid config value: " ++ e.message
  | malformedText e => octets "Failed to parse config JSON: " ++ e.message
  | document e => e.message
  | noFile path => octets "Failed to open config file: " ++ path
  | malformedFile path e =>
    octets "Failed to parse JSON from config file " ++ path ++ octets ": " ++ e.message
  | environment name value => name ++ octets " is not an integer: '" ++ value ++ octets "'"
  | address e => e.message
  | basePositive => octets "reconnect base delay must be positive"
  | maxBelowBase => octets "reconnect max delay must not be below the base delay"
  | heartbeatPositive => octets "heartbeat interval must be positive"
  | stalePositive => octets "stale threshold must be positive"
  | moveNegative => octets "significant move threshold must not be negative"

/-- The fields, in the order in which a document is looked through. -/
inductive Field where
  | url
  | reconnectBase
  | reconnectMax
  | heartbeatInterval
  | staleLimit
  | moveLimit
  | maxAttempts
  | markets
deriving DecidableEq

namespace Field

def all : List Field :=
  [url, reconnectBase, reconnectMax, heartbeatInterval, staleLimit, moveLimit, maxAttempts, markets]

/-- The key of a field in a document. -/
def key : Field → Octets
  | url => octets "url"
  | reconnectBase => octets "reconnect_base_ms"
  | reconnectMax => octets "reconnect_max_ms"
  | heartbeatInterval => octets "heartbeat_interval_ms"
  | staleLimit => octets "stale_threshold_ms"
  | moveLimit => octets "significant_move_percent"
  | maxAttempts => octets "max_reconnect_attempts"
  | markets => octets "markets"

/-- The milliseconds in a document: an integer, taken modulo `2 ^ 64`. -/
def millis (key : Octets) (v : Json) : Except Error Int :=
  match v.integer? with
  | some i => pure (wrapInt64 i)
  | none => throw (.notMillis key)

/-- Sets a field to the value in a document. -/
def set (f : Field) (v : Json) (s : Settings) : Except Error Settings :=
  match f with
  | url => do pure { s with url := (← v.getText.mapError .badValue) }
  | reconnectBase => do pure { s with reconnectBase := (← millis f.key v) }
  | reconnectMax => do pure { s with reconnectMax := (← millis f.key v) }
  | heartbeatInterval => do pure { s with heartbeatInterval := (← millis f.key v) }
  | staleLimit => do pure { s with staleLimit := (← millis f.key v) }
  | moveLimit => do pure { s with moveLimit := (← v.getNumber.mapError .badValue) }
  | maxAttempts => do pure { s with maxAttempts := (← v.getCount.mapError .badValue) }
  | markets => do pure { s with markets := (← v.getTexts.mapError .badValue) }

/-- Sets a field if a document mentions it. -/
def take (f : Field) (j : Json) (s : Settings) : Except Error Settings :=
  match j.member? f.key with
  | some v => f.set v s
  | none => pure s

end Field

/-- Settings after a layer, and the fault that ended it. -/
abbrev Outcome := Settings × Option Error

/-- Changes settings step by step up to the first fault. -/
def steps : List (Settings → Except Error Settings) → Settings → Outcome
  | [], s => (s, none)
  | f :: rest, s =>
    match f s with
    | .ok t => steps rest t
    | .error e => (s, some e)

def overlay (j : Json) (s : Settings) : Outcome :=
  if j.isObject then steps (Field.all.map fun f => f.take j) s else (s, some .notObject)

/-- Lays the document that a text is over settings. -/
def applyText (text : Octets) (s : Settings) : Outcome :=
  match Json.read text with
  | .ok j => overlay j s
  | .error .malformed => (s, some (.malformedText .malformed))
  | .error e => (s, some (.document e))

/-- The settings in a file, of which only the first document counts. The content is missing if the
file is. -/
def ofFile (path : Octets) (content : Option Octets) : Except Error Settings :=
  match content with
  | none => throw (.noFile path)
  | some text =>
    match Json.readFirst text with
    | .error e => throw (.malformedFile path e)
    | .ok (j, _) =>
      match overlay j {} with
      | (s, none) => pure s
      | (_, some e) => throw e

/-- The variables of an environment that are set, with their values. -/
abbrev Environment := List (Octets × Octets)

/-- The value of a variable, as far as a NUL-terminated text carries it; an empty value is none. -/
def value? (env : Environment) (name : Octets) : Option Octets :=
  ((env.find? fun (n, _) => n = name).map fun (_, v) => v.untilNul).filter fun v => !v.isEmpty

/-- The milliseconds in a variable; the current ones where it is not set. -/
def millisOf (env : Environment) (name : Octets) (current : Int) : Except Error Int :=
  match value? env name with
  | none => pure current
  | some v => (numeralInt64? v).elim (throw (.environment name v)) pure

def applyEnvironment (env : Environment) : Settings → Outcome :=
  steps [
    fun s => pure { s with url := (value? env (octets "FEEDLINE_URL")).getD s.url },
    fun s => do pure { s with reconnectBase := (← millisOf env (octets "FEEDLINE_RECONNECT_BASE_MS") s.reconnectBase) },
    fun s => do pure { s with reconnectMax := (← millisOf env (octets "FEEDLINE_RECONNECT_MAX_MS") s.reconnectMax) },
    fun s => do pure { s with heartbeatInterval := (← millisOf env (octets "FEEDLINE_HEARTBEAT_MS") s.heartbeatInterval) }]

/-- The address that settings name, if the settings can be used. -/
def endpoint (s : Settings) : Except Error Endpoint := do
  let endpoint ← (Endpoint.parse s.url).mapError .address
  if s.reconnectBase ≤ 0 then throw .basePositive
  if s.reconnectMax < s.reconnectBase then throw .maxBelowBase
  if s.heartbeatInterval ≤ 0 then throw .heartbeatPositive
  if s.staleLimit ≤ 0 then throw .stalePositive
  if s.moveLimit.less (.zero false) then throw .moveNegative
  pure endpoint

def validate (s : Settings) : Except Error Unit := s.endpoint.map fun _ => ()

end Settings

end QuoteFeed
