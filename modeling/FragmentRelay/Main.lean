import FragmentRelay.CommandLine
import FragmentRelay.Relay

/-!
# The command: files in, files out

The command reads its command line, its settings and its input, runs the relay and writes what it
delivered.
-/

namespace FragmentRelay.Main

/-- The bytes of a file, if it can be read. -/
def readFile? (path : String) : IO (Option Octets) := do
  try
    let bytes ← IO.FS.readBinFile path
    return some bytes.data.toList
  catch _ => return none

/-- Writes a file, and says whether that went well. -/
def writeFile (path : String) (bytes : Octets) : IO Bool := do
  try
    IO.FS.writeBinFile path ⟨bytes.toArray⟩
    return true
  catch _ => return false

/-- What is found at the path of a settings file. -/
def settingsAt (path : Option String) : IO Settings.Source := do
  match path with
  | none => return .absent
  | some path =>
    match ← readFile? path with
    | none => return .unreadable
    | some bytes => return .bytes bytes

/-- The values of the variables that override settings. -/
def environment : IO (List (String × String)) :=
  Settings.overrides.filterMapM fun (name, _) => do
    return (← IO.getEnv name).map fun value => (name, value)

/-- Says why a relay failed. -/
def report (e : Relay.End) : IO UInt32 := do
  match e with
  | .delivered _ => return 0
  | .failed f => IO.eprintln f.message
  | .crashed text => IO.eprintln text
  return UInt32.ofNat e.exitCode

/-- Runs the relay that a command line asks for. -/
def relay (i : CommandLine.Invocation) : IO UInt32 := do
  let values ← environment
  let site : Relay.Site := {
    settings := ← settingsAt i.settings
    lookup := fun name => values.lookup name
    canListen := SocketAddress.isLocal
    input := ← readFile? i.input
    canWrite := true
    clock := UInt64.ofNat (← IO.monoNanosNow)
  }
  match Relay.run site (Span.ofSeconds i.timeoutSecs) with
  | .delivered payload =>
    if ← writeFile i.output payload then return 0
    else report (.failed .output)
  | e => report e

/-- How the command is used. -/
def usage : String :=
  "Usage: fragment-relay [--config FILE] relay --input FILE --output FILE [--timeout-secs SECONDS]"

end FragmentRelay.Main

/-- Runs the command line. -/
def main (args : List String) : IO UInt32 := do
  match FragmentRelay.CommandLine.parse args with
  | .ok i => FragmentRelay.Main.relay i
  | .error e =>
    if e.exitCode = 0 then IO.println FragmentRelay.Main.usage
    else IO.eprintln s!"{e.kind}\n{FragmentRelay.Main.usage}"
    return UInt32.ofNat e.exitCode
