import Patchbay.Text

/-!
# Shapes of command lines

A shape says what a command takes: options with a value each, words, and commands below it. A
command line is read word by word from left to right, and the first mistake or the first wish for
help or for the version ends the reading. The value of an option that is a word of its own is looked
at when the next option or word comes up, or when the line has ended; a command below comes first.
-/

namespace Patchbay.Cli

/-- What an option's value may be. -/
inductive Kind where
  | text
  | path
  | number
  deriving DecidableEq, Repr

/-- The numbers that a value may be. -/
def numberLimit : Nat := 0xFFFFFFFFFFFFFFFF

def number? (value : String) : Option Nat := Text.unsigned? numberLimit value.toList

def Kind.accepts : Kind → String → Bool
  | text, _ => true
  | path, value => !value.isEmpty
  | number, value => (number? value).isSome

structure Parameter where
  name : String
  kind : Kind
  required : Bool
  about : String

/-- A word that a command takes, as its usage shows it. -/
structure Slot where
  label : String
  about : String

structure Shape where
  name : String
  about : String
  parameters : List Parameter
  slots : List Slot
  inner : List Shape
  asksHelp : Bool
  asksVersion : Bool

/-- The command that every command with others below it has besides them. -/
def helpShape : Shape where
  name := "help"
  about := "Print this message or the help of the given subcommand(s)"
  parameters := []
  slots := [⟨"[COMMAND]...", "Print help for the subcommand(s)"⟩]
  inner := []
  asksHelp := false
  asksVersion := false

/-- Why reading ends before a command is known. A trail leads from the outermost command to the one
that help is wanted for. -/
inductive Stop where
  | help (trail : List Shape)
  | version
  | mistake

/-- What was given to one command of a trail. -/
structure Given where
  name : String
  options : List (String × String)
  words : List String

/-- How far the reading of one command has come. The pending option waits for its value, or its
value waits to be looked at. -/
structure Progress where
  options : List (String × String)
  pending : Option (Parameter × Option String)
  words : List String
  wordsOnly : Bool

namespace Progress

def start : Progress := ⟨[], none, [], false⟩

/-- Whether the next word is an option's value. -/
def awaits (p : Progress) : Bool :=
  match p.pending with
  | some (_, none) => !p.wordsOnly
  | _ => false

/-- Takes the value of an option, which is given once. -/
def accept (p : Progress) (o : Parameter) (value : String) : Except Stop Progress :=
  if (p.options.lookup o.name).isSome || !o.kind.accepts value then .error .mistake
  else .ok { p with options := (o.name, value) :: p.options, pending := none }

/-- Looks at the value of the pending option. -/
def settle (p : Progress) : Except Stop Progress :=
  match p.pending with
  | none => .ok p
  | some (_, none) => .error .mistake
  | some (o, some value) => p.accept o value

/-- Ends the reading for a reason, unless the pending option is a mistake. -/
def stopFor (p : Progress) (reason : Stop) : Except Stop Progress := do
  let _ ← p.settle
  .error reason

end Progress

namespace Shape

def find? (s : Shape) (name : String) : Option Shape := s.inner.find? (·.name == name)

def takeWord (s : Shape) (p : Progress) (word : String) : Except Stop Progress := do
  let p ← p.settle
  if p.words.length < s.slots.length then .ok { p with words := p.words ++ [word] }
  else .error .mistake

/-- The name of a long option and the value behind its equals sign. -/
def splitOption (word : String) : String × Option String :=
  match Text.splitFirst ['='] [] (word.drop 2).toString.toList with
  | some (name, value) => (String.ofList name, some (String.ofList value))
  | none => ((word.drop 2).toString, none)

def takeLong (s : Shape) (trail : List Shape) (p : Progress) (word : String) :
    Except Stop Progress :=
  let (name, attached) := splitOption word
  match s.parameters.find? (·.name == name), attached with
  | some o, some value => do
    let p ← p.settle
    p.accept o value
  | some o, none => do
    let p ← p.settle
    .ok { p with pending := some (o, none) }
  | none, none =>
    if name == "help" && s.asksHelp then p.stopFor (.help trail)
    else if name == "version" && s.asksVersion then p.stopFor .version
    else .error .mistake
  | none, some _ => .error .mistake

/-- Short options only ask for something, so the first letter decides. -/
def takeShort (s : Shape) (trail : List Shape) (p : Progress) (word : String) :
    Except Stop Progress :=
  match word.toList with
  | '-' :: 'h' :: _ => if s.asksHelp then p.stopFor (.help trail) else .error .mistake
  | '-' :: 'V' :: _ => if s.asksVersion then p.stopFor .version else .error .mistake
  | _ => .error .mistake

/-- A word that is neither a command nor a double dash. -/
def take (s : Shape) (trail : List Shape) (p : Progress) (word : String) : Except Stop Progress :=
  if p.wordsOnly then s.takeWord p word
  else if word.startsWith "--" then s.takeLong trail p word
  else if word.startsWith "-" && word != "-" then s.takeShort trail p word
  else
    match p.pending with
    | some (o, none) => .ok { p with pending := some (o, some word) }
    | _ => s.takeWord p word

/-- What was given, if nothing is missing. -/
def finish (s : Shape) (p : Progress) : Except Stop Given := do
  let p ← p.settle
  if s.parameters.any fun o => o.required && (p.options.lookup o.name).isNone then .error .mistake
  else if p.words.length < s.slots.length then .error .mistake
  else .ok ⟨s.name, p.options, p.words⟩

/-- The help for a command further below. -/
def helpFor (s : Shape) (trail : List Shape) : List String → Stop
  | [] => .help trail
  | name :: rest =>
    match s.find? name with
    | some sub => sub.helpFor (trail ++ [sub]) rest
    | none =>
      if name == "help" && !s.inner.isEmpty && rest.isEmpty then .help (trail ++ [helpShape])
      else .mistake

/-- Reads the words for a command, with those for the commands below it. -/
def read (s : Shape) (trail : List Shape) (p : Progress) :
    List String → Except Stop (List Given)
  | [] => if s.inner.isEmpty then (s.finish p).map ([·]) else .error .mistake
  | word :: rest =>
    let plain := !p.wordsOnly && !p.awaits
    match if plain then s.find? word else none with
    | some sub => do
      let deeper ← sub.read (trail ++ [sub]) .start rest
      let here ← s.finish p
      .ok (here :: deeper)
    | none =>
      if plain && word == "help" && !s.inner.isEmpty then .error (s.helpFor trail rest)
      else if !p.wordsOnly && word == "--" then s.read trail { p with wordsOnly := true } rest
      else do
        let p ← s.take trail p word
        s.read trail p rest

/-- What is given at each level of a command line. -/
def ofWords (s : Shape) (words : List String) : Except Stop (List Given) := s.read [s] .start words

end Shape

end Patchbay.Cli
