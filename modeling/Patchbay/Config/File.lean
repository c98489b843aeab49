import Patchbay.Config
import Patchbay.Json.Skip
import Patchbay.Json.Writer

/-!
# The configuration file

A JSON object with one entry a setting, or an array of the settings in order. What is missing has
its standard value. An object may hold entries of other names, even repeated; a setting may not be
repeated, and an array may not go on after the last setting. A saved file reads back as what was
saved.
-/

namespace Patchbay

open Json

inductive Setting where
  | endpoint
  | scheduling
  | mailboxCapacity
  | connectTimeout
  | readyTimeout
  | stopTimeout
  | logFilter
  deriving DecidableEq, Repr

namespace Setting

/-- The settings in the order of the file. -/
def all : List Setting :=
  [endpoint, scheduling, mailboxCapacity, connectTimeout, readyTimeout, stopTimeout, logFilter]

def key : Setting → String
  | endpoint => "endpoint"
  | scheduling => "scheduling"
  | mailboxCapacity => "mailbox_capacity"
  | connectTimeout => "connect_timeout_ms"
  | readyTimeout => "ready_timeout_ms"
  | stopTimeout => "stop_timeout_ms"
  | logFilter => "log_filter"

def ofKey? (key : String) : Option Setting := all.find? fun s => s.key == key

def readText (text : List Char) : Option (String × List Char) :=
  match skipBlank text with
  | '"' :: text => Quoted.read text
  | _ => none

/-- An integer literal without sign. -/
def readCount (text : List Char) : Option (UInt64 × List Char) := do
  let (literal, rest) ← Literal.scan (skipBlank text)
  match literal.number? with
  | some (.natural n) => some (n.toUInt64, rest)
  | _ => none

def modeOf? : String → Option Scheduling
  | "multi_thread" => some .multiThread
  | "cooperative" => some .cooperative
  | _ => none

/-- A mode by its name, or as an object whose one entry has that name and is null. -/
def readMode (text : List Char) : Option (Scheduling × List Char) :=
  match skipBlank text with
  | '\x7b' :: text => do
    let (name, text) ← readText text
    let mode ← modeOf? name
    match skipBlank text with
    | ':' :: text =>
      match skipBlank text with
      | 'n' :: 'u' :: 'l' :: 'l' :: text =>
        match skipBlank text with
        | '\x7d' :: text => some (mode, text)
        | _ => none
      | _ => none
    | _ => none
  | text => do
    let (name, text) ← readText text
    let mode ← modeOf? name
    some (mode, text)

/-- Reads the value of a setting into a configuration. -/
def read (s : Setting) (c : Config) (text : List Char) : Option (Config × List Char) :=
  match s with
  | endpoint => (readText text).map fun (x, text) => ({ c with endpoint := x }, text)
  | scheduling => (readMode text).map fun (x, text) => ({ c with scheduling := x }, text)
  | mailboxCapacity => (readCount text).map fun (x, text) => ({ c with mailboxCapacity := x }, text)
  | connectTimeout => (readCount text).map fun (x, text) => ({ c with connectTimeout := x }, text)
  | readyTimeout => (readCount text).map fun (x, text) => ({ c with readyTimeout := x }, text)
  | stopTimeout => (readCount text).map fun (x, text) => ({ c with stopTimeout := x }, text)
  | logFilter => (readText text).map fun (x, text) => ({ c with logFilter := x }, text)

/-- The value of a setting as it stands in a file. -/
def put (out : String) (c : Config) : Setting → String
  | endpoint => Quoted.put out c.endpoint
  | scheduling => Quoted.put out c.scheduling.name
  | mailboxCapacity => putInt out c.mailboxCapacity.toNat
  | connectTimeout => putInt out c.connectTimeout.toNat
  | readyTimeout => putInt out c.readyTimeout.toNat
  | stopTimeout => putInt out c.stopTimeout.toNat
  | logFilter => Quoted.put out c.logFilter

end Setting

namespace Config

/-- The values of an array, the settings still to come being known. -/
def readValues (c : Config) : List Setting → List Char → Option (Config × List Char)
  | [], _ => none
  | s :: settings, text => do
    let (c, text) ← s.read c text
    match skipBlank text with
    | ',' :: text => readValues c settings text
    | ']' :: text => some (c, text)
    | _ => none

/-- The entries of an object; `seen` are the settings already read. `fuel` bounds the entries. -/
def readEntries (fuel : Nat) (c : Config) (seen : List Setting) (text : List Char) :
    Option (Config × List Char) :=
  match fuel with
  | 0 => none
  | fuel + 1 => do
    let (key, text) ← Setting.readText text
    match skipBlank text with
    | ':' :: text =>
      let (c, seen, text) ←
        match Setting.ofKey? key with
        | none => (skip text).map fun text => (c, seen, text)
        | some s =>
          if s ∈ seen then none
          else (s.read c text).map fun (c, text) => (c, s :: seen, text)
      match skipBlank text with
      | ',' :: text => readEntries fuel c seen text
      | '\x7d' :: text => some (c, text)
      | _ => none
    | _ => none

/-- The object or array at the start of a text. -/
def readBody (text : List Char) : Option (Config × List Char) :=
  match skipBlank text with
  | '[' :: text =>
    match skipBlank text with
    | ']' :: text => some (standard, text)
    | _ => readValues standard Setting.all text
  | '\x7b' :: text =>
    match skipBlank text with
    | '\x7d' :: text => some (standard, text)
    | _ => readEntries text.length standard [] text
  | _ => none

/-- The configuration that a file's text holds. -/
def ofText? (text : String) : Option Config :=
  match readBody text.toList with
  | some (c, rest) => if (skipBlank rest).isEmpty then some c else none
  | none => none

/-- The lines of an object, one for each setting. -/
def putSettings (c : Config) (out : String) : List Setting → String
  | [] => out
  | [s] => s.put (Quoted.put (out ++ "  ") s.key ++ ": ") c ++ "\n"
  | s :: settings =>
    putSettings c (s.put (Quoted.put (out ++ "  ") s.key ++ ": ") c ++ ",\n") settings

/-- The text of a saved file. -/
def toText (c : Config) : String := putSettings c "\x7b\n" Setting.all ++ "\x7d"

/-- The settings of a file alone. -/
def ofFile (host : Host) (path : String) : Except ConfigError Config :=
  match host.readText path with
  | .error _ => .error (.unreadable path)
  | .ok text =>
    match ofText? text with
    | some c => .ok c
    | none => .error (.notConfig path)

/-- Overrides and checks. -/
def finish (host : Host) (c : Config) : Except ConfigError Config := do
  let c ← c.override host.env?
  c.validate
  return c

/-- A file, with the environment over it. -/
def loadFrom (host : Host) (path : String) : Except ConfigError Config := do
  finish host (← ofFile host path)

/-- The file of a configuration directory, if there is one, with the environment over it. -/
def load (host : Host) (directory : String) : Except ConfigError Config := do
  let path := Host.join directory "config.json"
  if host.exists path then loadFrom host path else finish host standard

/-- Writes a file, its directories first. -/
def save (host : Host) (path : String) (c : Config) : Except ConfigError Host :=
  match host.makeParent path with
  | .error _ => .error .noDirectory
  | .ok host =>
    match host.write path (Bytes.ofText c.toText) with
    | .error _ => .error (.unwritable path)
    | .ok host => .ok host

end Config

end Patchbay
