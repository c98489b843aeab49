import Patchbay.Component
import Patchbay.Value.Args

/-!
# The accumulator

A component that collects text: a log of strings behind a base text. It can be read as one text,
counted, and replayed as a stream; a replay shows the log as it was when it began.
-/

namespace Patchbay.Modules

/-- The longest pause between two elements of a paced stream, in milliseconds. -/
def pauseLimit : Int64 := 60000

/-- The pause that the arguments ask for. -/
def pause (a : Args) (standard : Nat) : Except Fault Nat := do
  match ← a.int? "interval_ms" with
  | none => return standard
  | some ms =>
    if 0 ≤ ms ∧ ms ≤ pauseLimit then return ms.toInt.toNat
    else .error (.outOfRange a.op "interval_ms")

structure Accumulator where
  base : String
  chunks : List String

namespace Accumulator

/-- The base and everything collected. -/
def text (a : Accumulator) : String := a.chunks.foldl (· ++ ·) a.base

def textOutput (a : Accumulator) : Value := .map [("text", .string a.text)]

def put (a : Accumulator) (args : Value) : Except Fault Value × Accumulator :=
  match (Args.ofValue "put" args).bind (·.string "s") with
  | .error f => (.error f, a)
  | .ok s =>
    let a := { a with chunks := a.chunks ++ [s] }
    (.ok a.textOutput, a)

def get (a : Accumulator) (_ : Value) : Except Fault Value × Accumulator := (.ok a.textOutput, a)

def count (a : Accumulator) (_ : Value) : Except Fault Value × Accumulator :=
  (.ok (.map [("count", Value.ofNat a.chunks.length)]), a)

def replay (a : Accumulator) (args : Value) : Except Fault Stream × Accumulator :=
  let items := a.chunks.map fun s => Value.map [("s", .string s)]
  ((do
    let pause ← Modules.pause (← Args.ofValue "replay" args) 0
    return Stream.paced pause items), a)

def factory : Factory Accumulator := fun args => do
  let base ← (← Args.ofValue "accumulator" args).string? "base"
  return {
    state := ⟨base.getD "", []⟩
    methods :=
      [("put", .instant put), ("get", .instant get), ("count", .instant count),
        ("replay", .streaming replay)]
    teardown := fun _ => [] }

end Accumulator

end Patchbay.Modules
