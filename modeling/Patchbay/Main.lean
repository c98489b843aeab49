import Patchbay.Cli
import Patchbay.Modules

/-!
# The program

Reads the environment and the files that a command needs, runs the command, and prints what it
leaves behind. A server runs until its standard input ends.
-/

namespace Patchbay.Program

open Cli

/-- The variables that a configuration is read from. -/
def settingNames : List String :=
  ["SWITCHBOARD_CONFIG_DIR", "SWITCHBOARD_ENDPOINT", "SWITCHBOARD_SCHEDULING",
    "SWITCHBOARD_MAILBOX_CAPACITY", "SWITCHBOARD_LOG"]

def readVariable (name : String) : IO (Option (String × String)) := do
  return (← IO.getEnv name).map fun text => (name, text)

/-- A file at a path; a file that cannot be read is as good as missing. -/
def readFile (path : String) : IO (Option (String × Bytes)) := do
  try
    return some (path, (← IO.FS.readBinFile path).toList)
  catch _ => return none

/-- What the system offers to a command line. -/
def readHost (words : List String) : IO Host := do
  let environment ← settingNames.filterMapM readVariable
  let host := Host.ofFiles [] environment
  let paths :=
    match Command.ofWords words with
    | .ok command => command.files host
    | .error _ => []
  return Host.ofFiles (← paths.filterMapM readFile) environment

def report (outcome : Outcome) : IO UInt32 := do
  outcome.output.forM fun line => IO.println line
  outcome.error.forM fun line => IO.eprintln line
  return outcome.code.toUInt32

def waitForEnd (input : IO.FS.Stream) : IO Unit := do
  repeat
    if (← input.getLine).isEmpty then break

def serve (site : Site Modules.State) (endpoint config : Option String) : IO UInt32 := do
  match startServer Modules.builtin site endpoint config with
  | .error outcome => report outcome
  | .ok (server, _) =>
    let output ← IO.getStdout
    output.putStrLn (listeningLine server)
    output.flush
    waitForEnd (← IO.getStdin)
    output.putStrLn shutdownLine
    return 0

/-- Runs a command line, a server as long as its standard input lasts. -/
def run (words : List String) : IO UInt32 := do
  let site : Site Modules.State := ⟨← readHost words, none, 0⟩
  match Command.ofWords words with
  | .ok (.serve endpoint config) => serve site endpoint config
  | _ => report (Cli.run Modules.builtin site words).1

end Patchbay.Program

def main (words : List String) : IO UInt32 := Patchbay.Program.run words
