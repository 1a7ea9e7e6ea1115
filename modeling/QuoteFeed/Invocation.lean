import QuoteFeed.LogLevel
import QuoteFeed.Settings

/-!
How the program is called: what its arguments ask for, and the settings it then works with.
-/

namespace QuoteFeed

structure Invocation where
  level : LogLevel := .info
  /-- The path of a file with settings. -/
  file : Option Octets := none
  markets : List Octets := []
deriving DecidableEq

namespace Invocation

/-- Whether an argument is a path to a file with settings. -/
def isFile (arg : Octets) : Bool := (octets ".json").isSuffixOf arg

/-- Goes through the arguments. Nothing comes of it once help is asked for. -/
def add : List Octets → Invocation → Option Invocation
  | [], v => some v
  | arg :: rest, v =>
    if arg = octets "-h" ∨ arg = octets "--help" then none
    else if arg = octets "-v" then add rest { v with level := .debug }
    else if arg = octets "-q" then add rest { v with level := .warn }
    else if v.file.isNone ∧ isFile arg then add rest { v with file := some arg }
    else add rest { v with markets := v.markets ++ [arg] }

/-- What arguments ask for, unless they ask for help. -/
def ofArgs (args : List Octets) : Option Invocation := add (args.map Octets.untilNul) {}

/-- The settings of a call, with the address they name: defaults, then the file, then the
environment. Instruments named by arguments come last. -/
def settings (v : Invocation) (files : Octets → Option Octets) (env : Settings.Environment) :
    Except Settings.Error (Settings × Endpoint) := do
  let s ← match v.file with
    | none => pure {}
    | some path => Settings.ofFile path (files path)
  match s.applyEnvironment env with
  | (_, some e) => throw e
  | (s, none) =>
    let endpoint ← s.endpoint
    pure ({ s with markets := s.markets ++ v.markets }, endpoint)

def usage : Octets :=
  octets "usage: feedline_cli [-v|-q] [config.json] [market...]\n" ++
  octets "  -v debug logging, -q warnings and errors only\n" ++
  octets "  FEEDLINE_URL, FEEDLINE_RECONNECT_BASE_MS, FEEDLINE_RECONNECT_MAX_MS,\n" ++
  octets "  FEEDLINE_HEARTBEAT_MS override the config file; FEEDLINE_LOG sets the log level.\n"

end Invocation

end QuoteFeed
