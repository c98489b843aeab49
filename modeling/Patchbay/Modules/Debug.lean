import Patchbay.Modules.Accumulator
import Patchbay.Modules.Tokenizer

/-!
# The debug module

Small functions and components to try a system with: a function that answers at once, one that
streams, one that streams in time and may fail on the way.
-/

namespace Patchbay.Modules

namespace Debug

def name : String := "debug"

/-- A map with one text. -/
def textOutput (text : String) : Value := .map [("text", .string text)]

/-- Answers with the text it is given. -/
def echo (args : Value) : Except Fault Value := do
  let text ← (← Args.ofValue "echo" args).string "text"
  return textOutput text

/-- The characters of a text, one after the other. -/
def spell (args : Value) : Except Fault Stream := do
  let text ← (← Args.ofValue "spell" args).string "text"
  return Stream.ofList (text.toList.map fun c => textOutput c.toString)

def tickLimit : Int64 := 10000

/-- The tick at which a ticker shall fail. -/
def failingTick (a : Args) : Except Fault (Option Nat) := do
  match ← a.int? "fail_at" with
  | none => return none
  | some n => if n < 0 then .error (.outOfRange a.op "fail_at") else return some n.toInt.toNat

/-- What stands at one position of a ticker: a pause comes before each tick but the first. -/
def tick (count pause : Nat) (failing : Option Nat) (n : Nat) : Pull :=
  let after := if n = 0 then 0 else pause
  if count ≤ n then .finished
  else if failing = some n then .fault after (.failed s!"ticker failed at tick {n}")
  else .value after (.map [("tick", Value.ofNat n)])

/-- Counts up to a number of ticks in time. -/
def ticker (args : Value) : Except Fault Stream := do
  let a ← Args.ofValue "ticker" args
  let count ← a.intIn "count" 0 tickLimit
  let pause ← Modules.pause a 10
  let failing ← failingTick a
  return ⟨tick count.toInt.toNat pause failing⟩

/-- The module, for machines whose states hold those of its components. -/
def «module» (host : Host) (accumulator : Embedding Accumulator σ)
    (tokenizer : Embedding Tokenizer σ) : Module σ :=
  (((((Module.empty name).function "echo" (.instant echo)).function "spell"
    (.streaming spell)).function "ticker" (.streaming ticker)).componentType "accumulator"
      (Factory.lift accumulator Accumulator.factory)).componentType "tokenizer"
        (Factory.lift tokenizer (Tokenizer.factory host))

end Debug

end Patchbay.Modules
