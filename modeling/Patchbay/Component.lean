import Patchbay.Stream
import Patchbay.Table

/-!
# Functions, components and modules

What runs on the machine. A function maps arguments to a result or a stream. A component has a
state, methods that may change it, and a teardown hook whose lines go to the machine's log. Modules
contribute functions and component types; all component states of a machine have one type.
-/

namespace Patchbay

inductive Operator where
  | instant (run : Value → Except Fault Value)
  | streaming (run : Value → Except Fault Stream)

/-- A method changes the state whether it succeeds or fails. -/
inductive Method (σ : Type) where
  | instant (run : σ → Value → Except Fault Value × σ)
  | streaming (run : σ → Value → Except Fault Stream × σ)

structure Component (σ : Type) where
  state : σ
  methods : Table String (Method σ)
  teardown : σ → List String

/-- How states of one component are states of a machine. -/
structure Embedding (α σ : Type) where
  into : α → σ
  out? : σ → Option α

/-- A method on its own states; on any other state it fails and changes nothing. -/
def Method.lift (e : Embedding α σ) : Method α → Method σ
  | .instant run => .instant fun s args =>
    match e.out? s with
    | some a => (run a args).map id e.into
    | none => (.error (.failed "component state has an unexpected type"), s)
  | .streaming run => .streaming fun s args =>
    match e.out? s with
    | some a => (run a args).map id e.into
    | none => (.error (.failed "component state has an unexpected type"), s)

/-- A component among the components of a machine. -/
def Component.lift (e : Embedding α σ) (c : Component α) : Component σ where
  state := e.into c.state
  methods := c.methods.map fun (name, method) => (name, method.lift e)
  teardown s :=
    match e.out? s with
    | some a => c.teardown a
    | none => []

abbrev Factory (σ : Type) := Value → Except Fault (Component σ)

def Factory.lift (e : Embedding α σ) (f : Factory α) : Factory σ := fun args =>
  (f args).map (Component.lift e)

/-- A named set of functions and component types, in the order of their first registration. -/
structure Module (σ : Type) where
  name : String
  functions : Table String Operator
  types : Table String (Factory σ)

namespace Module

def empty (name : String) : Module σ := ⟨name, [], []⟩

/-- Registers a function; of a repeated name the last operator counts. -/
def function (m : Module σ) (name : String) (op : Operator) : Module σ :=
  { m with functions := Table.put m.functions name op }

/-- Registers a component type; of a repeated name the last factory counts. -/
def componentType (m : Module σ) (name : String) (factory : Factory σ) : Module σ :=
  { m with types := Table.put m.types name factory }

end Module

end Patchbay
