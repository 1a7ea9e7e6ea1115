import QuoteFeed.Terminal

/-!
The command line. The network is whoever writes to standard input what happens on it; the calls that
the program makes on the network are written to standard error.
-/

namespace QuoteFeed

/-- The variables that the program looks at. -/
def variableNames : List String :=
  ["FEEDLINE_URL", "FEEDLINE_RECONNECT_BASE_MS", "FEEDLINE_RECONNECT_MAX_MS", "FEEDLINE_HEARTBEAT_MS"]

def writeTo (output : IO.FS.Stream) (s : Octets) : IO Unit := output.write ⟨s.toArray⟩

def showEntry (e : Entry) : IO Unit := do
  match e with
  | .output text => writeTo (← IO.getStdout) text
  | .log level text =>
    let target ← if level.rank < LogLevel.warn.rank then IO.getStdout else IO.getStderr
    writeTo target (octets "[" ++ level.name ++ octets "][cli] " ++ text ++ octets "\n")
  | .call c => writeTo (← IO.getStderr) ((octets " ").intercalate c.words ++ octets "\n")
  | _ => pure ()

/-- The lines of an input, up to its end. -/
partial def readLines (input : IO.FS.Stream) (lines : Array Octets) : IO (List Octets) := do
  let line ← input.getLine
  if line.isEmpty then pure lines.toList else readLines input (lines.push (octets line))

/-- The content of the file with settings that some arguments name, if it can be read. -/
def settingsContent (args : List String) : IO (Option Octets) := do
  match args.find? fun arg => Invocation.isFile (octets arg) with
  | none => pure none
  | some path =>
    try pure (some (← IO.FS.readBinFile path).data.toList)
    catch _ => pure none

end QuoteFeed

open QuoteFeed in
def main (args : List String) : IO UInt32 := do
  let env ← variableNames.filterMapM fun name => do
    pure ((← IO.getEnv name).map fun value => (octets name, octets value))
  let content ← settingsContent args
  let lines ← readLines (← IO.getStdin) #[]
  let happenings := Happening.ofLines lines
  match Terminal.execute (args.map octets) (fun _ => content) env {} (Happening.epochOf lines) happenings with
  | some (.ok result) =>
    (result.steps.flatten ++ result.last.getD []).forM showEntry
    pure ((result.exit.getD 0).toUInt32)
  | some (.error e) =>
    writeTo (← IO.getStderr) (e.message ++ octets "\n")
    pure 1
  | none => pure 1
