import Patchbay.Bytes
import Patchbay.Table

/-!
# Files and environment

What the system around a process offers: a tree of directories, files and sockets, and an
environment. A path is walked from the working directory, or from the root if it begins with a
slash: every step but the last leads into a directory that is there, and a slash at the end asks
for a directory there too. Every refusal says which rule of the walk was broken.
-/

namespace Patchbay

/-- Why the system refuses. -/
inductive OsError where
  | notFound
  | exists
  | notDirectory
  | isDirectory
  | noDevice
  | tooLong
  | inUse
  | notAssignable
  | noRoute
  | refused
  | unknownName
  | notText
  | zeroInPath
  | zeroInAddress
  deriving DecidableEq, Repr

/-- The system's words for it. -/
def OsError.message : OsError → String
  | notFound => "No such file or directory (os error 2)"
  | noDevice => "No such device or address (os error 6)"
  | «exists» => "File exists (os error 17)"
  | notDirectory => "Not a directory (os error 20)"
  | isDirectory => "Is a directory (os error 21)"
  | tooLong => "File name too long (os error 36)"
  | inUse => "Address already in use (os error 98)"
  | notAssignable => "Cannot assign requested address (os error 99)"
  | noRoute => "Network is unreachable (os error 101)"
  | refused => "Connection refused (os error 111)"
  | unknownName =>
    "failed to lookup address information: Temporary failure in name resolution"
  | notText => "stream did not contain valid UTF-8"
  | zeroInPath => "file name contained an unexpected NUL byte"
  | zeroInAddress => "paths must not contain interior null bytes"

/-- The names on the way from the root. -/
abbrev Place := List String

/-- What may lie at a place. A device takes everything and gives nothing. -/
inductive Host.Entry where
  | directory
  | file (bytes : Bytes)
  | socket
  | device

structure Host where
  entries : Table Place Host.Entry
  environment : List (String × String)

namespace Host

/-! ## Places -/

/-- The working directory. It has no name by which a path could lead to it. -/
def home : Place := ["tmp", ""]

/-- The entry at a place; the root is always there. -/
def entryAt? (h : Host) : Place → Option Entry
  | [] => some .directory
  | p => Table.find? h.entries p

def isDirectoryAt (h : Host) (p : Place) : Bool :=
  match h.entryAt? p with
  | some .directory => true
  | _ => false

def put (h : Host) (p : Place) (e : Entry) : Host := { h with entries := Table.put h.entries p e }

/-- A system with an empty working directory. -/
def empty : Host where
  entries :=
    [(["tmp"], .directory), (home, .directory), (["dev"], .directory), (["dev", "null"], .device)]
  environment := []

def env? (h : Host) (name : String) : Option String := h.environment.lookup name

/-! ## Paths -/

/-- The longest name, in bytes. -/
def nameLimit : Nat := 255

/-- The longest path, in bytes. -/
def pathLimit : Nat := 4095

def isAbsolute (path : String) : Bool := path.startsWith "/"

/-- The steps of a path; slashes in a row are one. -/
def steps (path : String) : List String := (path.splitOn "/").filter (!·.isEmpty)

/-- Where the walk along a path begins. -/
def origin (path : String) : Place := if isAbsolute path then [] else home

/-- Goes into a directory. -/
def enter (h : Host) (p : Place) (step : String) : Except OsError Place :=
  match step with
  | "." => .ok p
  | ".." => .ok p.dropLast
  | name =>
    if nameLimit < name.utf8ByteSize then .error .tooLong
    else
      match h.entryAt? (p ++ [name]) with
      | some .directory => .ok (p ++ [name])
      | some _ => .error .notDirectory
      | none => .error .notFound

/-- What a path names, once all of its steps but the last are taken: a directory by itself, or what
may lie at a place, asked for as a directory or not. -/
inductive Spot where
  | directory (p : Place)
  | named (p : Place) (asDirectory : Bool)

/-- Walks along a path up to its last step. -/
def approach (h : Host) (path : String) : Except OsError Spot :=
  if path.isEmpty then .error .notFound
  else if path.contains '\x00' then .error .zeroInPath
  else if pathLimit < path.utf8ByteSize then .error .tooLong
  else
    match (steps path).getLast? with
    | none => .ok (.directory [])
    | some last => do
      let p ← (steps path).dropLast.foldlM h.enter (origin path)
      match last with
      | "." => .ok (.directory p)
      | ".." => .ok (.directory p.dropLast)
      | name =>
        if nameLimit < name.utf8ByteSize then .error .tooLong
        else .ok (.named (p ++ [name]) (path.endsWith "/"))

/-- The place of what a path names, and what it is. -/
def find (h : Host) (path : String) : Except OsError (Place × Entry) := do
  match ← h.approach path with
  | .directory p => .ok (p, .directory)
  | .named p asDirectory =>
    match h.entryAt? p with
    | none => .error .notFound
    | some .directory => .ok (p, .directory)
    | some e => if asDirectory then .error .notDirectory else .ok (p, e)

def «exists» (h : Host) (path : String) : Bool := (h.find path).isOk

def isDirectory (h : Host) (path : String) : Bool :=
  match h.find path with
  | .ok (_, .directory) => true
  | _ => false

/-! ## Files -/

/-- The contents of a file. -/
def read (h : Host) (path : String) : Except OsError Bytes := do
  match ← h.find path with
  | (_, .file bytes) => .ok bytes
  | (_, .device) => .ok []
  | (_, .directory) => .error .isDirectory
  | (_, .socket) => .error .noDevice

/-- The contents of a file that is text. -/
def readText (h : Host) (path : String) : Except OsError String := do
  let bytes ← h.read path
  match Bytes.text? bytes with
  | some text => .ok text
  | none => .error .notText

/-- Writes a file, which is made if it is not there. -/
def write (h : Host) (path : String) (bytes : Bytes) : Except OsError Host := do
  match ← h.approach path with
  | .directory _ => .error .isDirectory
  | .named p asDirectory =>
    if asDirectory then .error .isDirectory
    else
      match h.entryAt? p with
      | some .directory => .error .isDirectory
      | some .socket => .error .noDevice
      | some .device => .ok h
      | _ => .ok (h.put p (.file bytes))

/-- Removes a file or a socket. -/
def remove (h : Host) (path : String) : Except OsError Host := do
  match ← h.approach path with
  | .directory _ => .error .isDirectory
  | .named p asDirectory =>
    match h.entryAt? p with
    | none => .error .notFound
    | some .directory => .error .isDirectory
    | some _ =>
      if asDirectory then .error .notDirectory
      else .ok { h with entries := Table.erase h.entries p }

/-! ## Directories -/

/-- Makes a directory in one that is there. -/
def makeDirectory (h : Host) (path : String) : Except OsError Host := do
  match ← h.approach path with
  | .directory _ => .error .exists
  | .named p _ => if (h.entryAt? p).isSome then .error .exists else .ok (h.put p .directory)

/-- The path of some steps, which are given from the last to the first. -/
def pathOf (absolute : Bool) (reversed : List String) : String :=
  (if absolute then "/" else "") ++ "/".intercalate reversed.reverse

/-- Makes a directory and, if it cannot be made because they are missing, those on the way to it. A
directory that is there already is as good as made. -/
def makeTree (absolute : Bool) : (reversed : List String) → Host → Except OsError Host
  | [], h => .ok h
  | step :: above, h =>
    let path := pathOf absolute (step :: above)
    let settle (h : Host) : OsError → Except OsError Host := fun e =>
      if h.isDirectory path then .ok h else .error e
    match h.makeDirectory path with
    | .ok h => .ok h
    | .error .notFound => do
      let h ← makeTree absolute above h
      (h.makeDirectory path).tryCatch (settle h)
    | .error e => settle h e

/-- Makes the directory in which a path ends, with all that is missing on the way. -/
def makeParent (h : Host) (path : String) : Except OsError Host :=
  makeTree (isAbsolute path) ((steps path).filter (· != ".")).dropLast.reverse h

/-! ## Sockets -/

/-- Puts a socket where nothing is. -/
def bindSocket (h : Host) (path : String) : Except OsError Host :=
  if path.contains '\x00' then .error .zeroInAddress
  else do
    match ← h.approach path with
    | .directory _ => .error .inUse
    | .named p asDirectory =>
      if (h.entryAt? p).isSome then .error .inUse
      else if asDirectory then .error .notFound
      else .ok (h.put p .socket)

/-- The socket at a path. A path that begins with a zero is the name of one that is no file. -/
def socketAt (h : Host) (path : String) : Except OsError Place :=
  if path.startsWith "\x00" then .error .refused
  else if path.contains '\x00' then .error .zeroInAddress
  else do
    match ← h.find path with
    | (p, .socket) => .ok p
    | _ => .error .refused

/-! ## Building a system -/

/-- A file at a path, with all directories on the way. -/
def withFile (h : Host) (path : String) (bytes : Bytes) : Host :=
  let visit (reached : Host × Place) (step : String) : Host × Place :=
    match step with
    | "." => reached
    | ".." => (reached.1, reached.2.dropLast)
    | name => (reached.1.put (reached.2 ++ [name]) .directory, reached.2 ++ [name])
  let (h, p) := (steps path).dropLast.foldl visit (h, origin path)
  h.put (p ++ (steps path).getLast?.toList) (.file bytes)

/-- A system whose files lie at paths. -/
def ofFiles (files : List (String × Bytes)) (environment : List (String × String)) : Host :=
  files.foldl (fun h file => h.withFile file.1 file.2) { empty with environment := environment }

/-- A name inside a directory. -/
def join (directory name : String) : String :=
  if directory.isEmpty || directory.endsWith "/" then directory ++ name
  else directory ++ "/" ++ name

end Host

end Patchbay
