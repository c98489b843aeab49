import Patchbay.Cli.Command
import Patchbay.Cli.Usage
import Patchbay.Config.File
import Patchbay.Exchange.Line
import Patchbay.Server

/-!
# Commands at work

What the commands do on a host where at most one server runs: `serve` starts the server, `exec`
connects to it, executes one instruction, and prints every reply as a line of JSON.
-/

namespace Patchbay.Cli

/-- A host, the server on it, and how many clients have been connected. -/
structure Site (σ : Type) where
  host : Host
  server : Option (Server σ)
  clients : Nat

/-- What a command leaves behind: its exit code, the lines it printed, and the error it reported. -/
structure Outcome where
  code : Nat
  output : List String
  error : Option String

def versionLine : String := "switchboard 0.1.0"

/-- A failure before anything was printed. -/
def failure (message : String) : Outcome := ⟨1, [], some ("Error: " ++ message)⟩

/-- The outermost message of an error. -/
def headline : Chain → String
  | .text s :: _ => s
  | _ => ""

/-! ## Serving -/

/-- The configuration of a server: of a given file, else of the configuration directory. -/
def configuration (host : Host) (endpoint config : Option String) : Except ConfigError Config := do
  let c ←
    match config, host.env? "SWITCHBOARD_CONFIG_DIR" with
    | some path, _ => Config.loadFrom host path
    | none, some directory => Config.load host directory
    | none, none => Config.finish host Config.standard
  return { c with endpoint := endpoint.getD c.endpoint }

/-- The files that a command reads at its start. -/
def Command.files (host : Host) : Command → List String
  | .serve _ (some path) => [path]
  | .serve _ none =>
    (host.env? "SWITCHBOARD_CONFIG_DIR").toList.map fun directory =>
      Host.join directory "config.json"
  | _ => []

/-- Starts a server. -/
def startServer (modules : Host → List (Module σ)) (site : Site σ)
    (endpoint config : Option String) : Except Outcome (Server σ × Site σ) :=
  match configuration site.host endpoint config with
  | .error e => .error (failure (headline e.chain))
  | .ok c =>
    match Server.start site.host c modules with
    | .error e => .error (failure (headline e.chain))
    | .ok (r, host) => .ok (r, { site with host := host, server := some r })

def listeningLine (r : Server σ) : String := "Listening on " ++ r.endpoint.url

def shutdownLine : String := "Shutting down..."

/-- Stops the server, if there is one. -/
def shutDown (site : Site σ) : Site σ :=
  match site.server with
  | none => site
  | some r => { site with host := (r.stop site.host).2, server := none }

/-! ## Executing -/

/-- A connection to the server at a URL. -/
def dial (site : Site σ) (url : String) : Except TransportError (ClientId × Server σ) := do
  let e ← Endpoint.ofUrl url
  match e, site.server with
  | .inproc _, _ | _, none => .error (Endpoint.unreachable site.host e)
  | e, some r =>
    if e.reaches site.host r.endpoint then r.dial site.host
    else .error (Endpoint.unreachable site.host e)

/-- A reply as a line of JSON. -/
def line (p : Packet) : String :=
  let sequence :=
    match p.sequence with
    | some n => [("sequence", Value.ofNat n.toNat)]
    | none => []
  (Value.map ([("transaction_id", .string p.tx), ("type", .string p.type.name)] ++ sequence
    ++ [("headers", .map p.headers), ("body", p.body)])).toJson

/-- How an operation that was to succeed ended instead. -/
def breakText : Break ClientError → String
  | .error e => e.message
  | .abandoned => "interrupted"

/-- What an execute leaves behind whose replies were printed up to their end. -/
def concluded (packets : List Packet) : Except (Break ClientError) Bool → Outcome
  | .ok true => ⟨0, packets.map line, none⟩
  | .ok false => ⟨1, packets.map line, none⟩
  | .error b => ⟨1, packets.map line, some ("Error: " ++ breakText b)⟩

/-- Executes one instruction: subscribes to its target first, follows its transaction, and takes
leave. -/
def perform (job : Job) (args : Value) (c : Client (Line σ)) : Outcome × Client (Line σ) :=
  match c.subscribe Exchange.patience job.target with
  | (.error _, c) => (failure "Failed to subscribe", c.close)
  | (.ok _, c) =>
    match c.execute fun tx => job.packet tx args with
    | (.error e, c) => (failure e.message, c.close)
    | (.ok tx, c) =>
      let (packets, ending, c) := c.follow tx Exchange.patience
      let (_, c) := c.disconnect Exchange.patience
      (concluded packets ending, c)

/-- The arguments, which are null when none are given. -/
def arguments : Option String → Option Value
  | none => some .null
  | some text => (Value.ofJson text).toOption

/-- Connects to a server and executes an instruction there. A timeout bounds each wait. -/
def execute (site : Site σ) (url : String) (timeout : Option Nat) (job : Job) (args : Value) :
    Outcome × Site σ :=
  let refused := failure ("Failed to connect to " ++ url)
  match dial site url with
  | .error _ => (refused, site)
  | .ok (id, r) =>
    let standard := Config.standard.connectTimeout.toNat
    let c : Client (Line σ) :=
      { Client.start ⟨r.exchange, id, none⟩ site.clients (timeout.getD standard) with
        executeTimeout := timeout }
    let (outcome, c) :=
      match c.connect Exchange.patience with
      | (.error _, c) => (refused, c)
      | (.ok _, c) => perform job args c
    let server := { r with exchange := c.channel.exchange.rest }
    (outcome, { site with server := some server, clients := site.clients + 1 })

/-! ## All commands -/

/-- Runs a command; a server is stopped again at once. -/
def Command.run (modules : Host → List (Module σ)) (site : Site σ) :
    Command → Outcome × Site σ
  | .serve endpoint config =>
    match startServer modules site endpoint config with
    | .error outcome => (outcome, site)
    | .ok (r, site) => (⟨0, [listeningLine r, shutdownLine], none⟩, shutDown site)
  | .exec endpoint text timeout job =>
    match arguments text with
    | none => (failure "--args is not valid JSON", site)
    | some args => execute site endpoint timeout job args

/-- What a command line leaves behind that asks for no command. A mistake has an exit code of its
own. -/
def stopped : Stop → Outcome
  | .help trail => ⟨0, Shape.usage trail, none⟩
  | .version => ⟨0, [versionLine], none⟩
  | .mistake => ⟨2, [], none⟩

/-- Runs a command line. -/
def run (modules : Host → List (Module σ)) (site : Site σ) (words : List String) :
    Outcome × Site σ :=
  match Command.ofWords words with
  | .error reason => (stopped reason, site)
  | .ok command => command.run modules site

/-- Runs command lines one after the other. -/
def runAll (modules : Host → List (Module σ)) (site : Site σ) :
    List (List String) → List Outcome × Site σ
  | [] => ([], site)
  | words :: rest =>
    let (outcome, site) := run modules site words
    let (outcomes, site) := runAll modules site rest
    (outcome :: outcomes, site)

/-- Runs command lines while a server runs, if it starts, and stops it afterwards: what the server
left behind, and what the others did. -/
def runBeside (modules : Host → List (Module σ)) (site : Site σ) (server : List String)
    (others : List (List String)) : Outcome × List Outcome :=
  match Command.ofWords server with
  | .ok (.serve endpoint config) =>
    match startServer modules site endpoint config with
    | .error outcome => (outcome, (runAll modules site others).1)
    | .ok (r, site) =>
      (⟨0, [listeningLine r, shutdownLine], none⟩, (runAll modules site others).1)
  | _ => ((run modules site server).1, (runAll modules site others).1)

end Patchbay.Cli
