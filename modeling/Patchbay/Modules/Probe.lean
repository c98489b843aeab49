import Patchbay.Component
import Patchbay.Value.Args

/-!
# The probe module

Operators for exercising a system: results and failures of every shape, streams that pause, fail or
never end, and a counter that shows when its teardown hook runs.
-/

namespace Patchbay.Modules

/-- A number with a name. -/
structure Counter where
  count : Int64
  label : String

namespace Probe

def name : String := "fx"

def identity (args : Value) : Except Fault Value := .ok args

/-- Fails with the message it is given. -/
def fail (args : Value) : Except Fault Value := do
  let message ← (← Args.ofValue "fail" args).string "msg"
  .error (.failed message)

/-- The items, then the failure; a pause comes before each of them but the first. What follows is
the end, or nothing for ever. -/
def emission (items : List Value) (failure : Option String) (pause : Nat) (endless : Bool) :
    Stream :=
  let pulls : List (Nat → Pull) :=
    items.map (fun v after => .value after v)
      ++ (failure.map fun message after => .fault after (.failed message)).toList
  let timed : List Pull :=
    match pulls with
    | [] => []
    | first :: rest => first 0 :: rest.map (· pause)
  Stream.ofPulls timed.toArray (if endless then .never else .finished)

/-- Streams what it is given. -/
def emit (args : Value) : Except Fault Stream := do
  let a ← Args.ofValue "emit" args
  let items ← a.array "items"
  let failure ← a.string? "fail"
  let pause ← a.int? "every_ms"
  let endless := (a.fields.find "hang").bind Value.asBool?
  return emission items failure ((pause.getD 0).toInt.natAbs) (endless.getD false)

/-- Streams texts of given lengths. -/
def blobs (args : Value) : Except Fault Stream := do
  let sizes ← (← Args.ofValue "blobs" args).array "sizes"
  let text (n : Int64) : Value := .string (String.ofList (List.replicate n.toInt.toNat 'x'))
  return Stream.ofList ((sizes.filterMap Value.asInt?).map text)

def incr (c : Counter) (args : Value) : Except Fault Value × Counter :=
  match (Args.ofValue "incr" args).bind (·.int? "by") with
  | .error f => (.error f, c)
  | .ok step =>
    let c := { c with count := c.count + step.getD 1 }
    (.ok (.int c.count), c)

/-- Adds and then fails, so that the change shows although the call failed. -/
def boom (c : Counter) (_ : Value) : Except Fault Value × Counter :=
  let c := { c with count := c.count + 100 }
  (.error (.failed s!"boom at {c.count}"), c)

def countdown (c : Counter) (_ : Value) : Except Fault Stream × Counter :=
  (.ok (Stream.ofList ((List.range c.count.toInt.toNat).reverse.map Value.ofNat)), c)

def emitMethod (c : Counter) (args : Value) : Except Fault Stream × Counter :=
  (emit args, { c with count := c.count + 1 })

def counter : Factory Counter := fun args => do
  let a ← Args.ofValue "counter" args
  match ← a.string? "fail" with
  | some message => .error (.failed message)
  | none => pure ()
  let start ← a.int? "start"
  let label ← a.string? "label"
  return {
    state := ⟨start.getD 0, label.getD "counter"⟩
    methods :=
      [("incr", .instant incr), ("boom", .instant boom), ("countdown", .streaming countdown),
        ("emit", .streaming emitMethod)]
    teardown := fun c => [s!"{c.label}:{c.count}"] }

def «module» (counters : Embedding Counter σ) : Module σ :=
  (((((Module.empty name).function "identity" (.instant identity)).function "fail"
    (.instant fail)).function "emit" (.streaming emit)).function "blobs"
      (.streaming blobs)).componentType "counter" (Factory.lift counters counter)

end Probe

end Patchbay.Modules
