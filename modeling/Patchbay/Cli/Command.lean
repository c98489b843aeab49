import Patchbay.Cli.Shape
import Patchbay.Packet

/-!
# The commands

What a command line may ask of the program: to serve, or to execute one instruction at a server.
-/

namespace Patchbay.Cli

/-- An instruction to execute. -/
inductive Job where
  | callFunction (name : String)
  | defineComponent (type name : String)
  | deleteComponent (name : String)
  | callMethod (component method : String)
  deriving DecidableEq, Repr

namespace Job

def target : Job → Target
  | callFunction name => .function name
  | defineComponent type _ => .componentType type
  | deleteComponent name => .component name
  | callMethod component method => .method component method

def packet (tx : String) (args : Value) : Job → Packet
  | callFunction name => .callFunction tx name args
  | defineComponent type name => .defineComponent tx type name args
  | deleteComponent name => .deleteComponent tx name
  | callMethod component method => .callMethod tx component method args

/-- A command that takes words and nothing else. -/
def shape (name about : String) (labels : List String) : Shape where
  name := name
  about := about
  parameters := []
  slots := labels.map fun label => ⟨label, ""⟩
  inner := []
  asksHelp := true
  asksVersion := false

def shapes : List Shape :=
  [shape "call-function" "Call a module function" ["<NAME>"],
    shape "define-component" "Create a named component of a registered type" ["<TYPE>", "<NAME>"],
    shape "delete-component" "Tear down a named component" ["<NAME>"],
    shape "call-method" "Call a method on a live component" ["<COMPONENT>", "<METHOD>"]]

def ofGiven? (g : Given) : Option Job :=
  match g.name, g.words with
  | "call-function", [name] => some (callFunction name)
  | "define-component", [type, name] => some (defineComponent type name)
  | "delete-component", [name] => some (deleteComponent name)
  | "call-method", [component, method] => some (callMethod component method)
  | _, _ => none

end Job

inductive Command where
  | serve (endpoint config : Option String)
  | exec (endpoint : String) (args : Option String) (timeout : Option Nat) (job : Job)
  deriving DecidableEq, Repr

namespace Command

def serveShape : Shape where
  name := "serve"
  about := "Run a broker and VM with the built-in modules until Ctrl-C"
  parameters :=
    [⟨"endpoint", .text, false,
        "Endpoint URL, e.g. tcp://127.0.0.1:7400 or ipc:///tmp/switchboard.sock"⟩,
      ⟨"config", .path, false, "Config file (defaults to the platform config directory)"⟩]
  slots := []
  inner := []
  asksHelp := true
  asksVersion := false

def execShape : Shape where
  name := "exec"
  about := "Execute one instruction against a running broker"
  parameters :=
    [⟨"endpoint", .text, true, "Broker endpoint URL"⟩,
      ⟨"args", .text, false, "Arguments as a JSON document"⟩,
      ⟨"timeout-ms", .number, false,
        "Give up when no response arrives within this many milliseconds"⟩]
  slots := []
  inner := Job.shapes
  asksHelp := true
  asksVersion := false

/-- The whole command line. -/
def shape : Shape where
  name := "switchboard"
  about := "Local-first agent runtime: broker, VM and components"
  parameters := []
  slots := []
  inner := [serveShape, execShape]
  asksHelp := true
  asksVersion := true

def ofGiven? : List Given → Option Command
  | [_, g] => some (.serve (g.options.lookup "endpoint") (g.options.lookup "config"))
  | [_, g, inner] => do
    let endpoint ← g.options.lookup "endpoint"
    let job ← Job.ofGiven? inner
    some (.exec endpoint (g.options.lookup "args") ((g.options.lookup "timeout-ms").bind number?)
      job)
  | _ => none

/-- What a command line asks for. -/
def ofWords (words : List String) : Except Stop Command := do
  let given ← shape.ofWords words
  match ofGiven? given with
  | some command => .ok command
  | none => .error .mistake

end Command

end Patchbay.Cli
