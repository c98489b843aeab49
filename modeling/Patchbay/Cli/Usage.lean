import Patchbay.Cli.Shape

/-!
# Usage

The help for a command, line by line: what it does, how it is called, and what it takes. How it is
called includes what the commands around it require.
-/

namespace Patchbay.Cli

/-- An option as it is written, with a name for its value. -/
def Parameter.label (o : Parameter) : String :=
  let value := String.ofList (o.name.toUpper.toList.map fun c => if c == '-' then '_' else c)
  "--" ++ o.name ++ " <" ++ value ++ ">"

namespace Shape

/-- What a command requires besides its name. -/
def required (s : Shape) : List String :=
  (s.parameters.filter (·.required)).map Parameter.label ++ s.slots.map Slot.label

/-- How a command is called: the words for those around it, then its own. -/
def call (trail : List Shape) (s : Shape) : List String :=
  trail.flatMap (fun outer => outer.name :: outer.required)
    ++ s.name :: (if s.parameters.any (!·.required) then ["[OPTIONS]"] else [])
    ++ s.required
    ++ (if s.inner.isEmpty then [] else ["<COMMAND>"])

/-- Rows of two columns under a heading, behind a blank line. -/
def section? (heading : String) (rows : List (String × String)) : List String :=
  if rows.isEmpty then []
  else
    let width := rows.foldl (fun width row => max width row.1.length) 0
    "" :: heading :: rows.map fun (left, right) =>
      "  " ++ String.ofList (left.toList.rightpad width ' ') ++ "  " ++ right

/-- The commands below, and the one that gives help for them. -/
def commandRows (s : Shape) : List (String × String) :=
  if s.inner.isEmpty then []
  else (s.inner ++ [helpShape]).map fun sub => (sub.name, sub.about)

/-- The options, those with a value first. -/
def optionRows (s : Shape) : List (String × String) :=
  s.parameters.map (fun o => ("    " ++ o.label, o.about))
    ++ (if s.asksHelp then [("-h, --help", "Print help")] else [])
    ++ (if s.asksVersion then [("-V, --version", "Print version")] else [])

/-- The help for the last command of a trail. -/
def usage (trail : List Shape) : List String :=
  match trail.getLast? with
  | none => []
  | some s =>
    [s.about, "", "Usage: " ++ " ".intercalate (s.call trail.dropLast)]
      ++ section? "Commands:" s.commandRows
      ++ section? "Arguments:" (s.slots.map fun slot => (slot.label, slot.about))
      ++ section? "Options:" s.optionRows

end Shape

end Patchbay.Cli
