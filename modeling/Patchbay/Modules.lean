import Patchbay.Modules.Debug
import Patchbay.Modules.Probe
import Patchbay.Registry

/-!
# The modules there are

The states that components of these modules have, and the modules in load order.
-/

namespace Patchbay.Modules

inductive State where
  | accumulator (a : Accumulator)
  | tokenizer (t : Tokenizer)
  | counter (c : Counter)

def accumulators : Embedding Accumulator State where
  into := .accumulator
  out?
    | .accumulator a => some a
    | _ => none

def tokenizers : Embedding Tokenizer State where
  into := .tokenizer
  out?
    | .tokenizer t => some t
    | _ => none

def counters : Embedding Counter State where
  into := .counter
  out?
    | .counter c => some c
    | _ => none

/-- The modules that a server has by itself; files are read from the host. -/
def builtin (host : Host) : List (Module State) := [Debug.module host accumulators tokenizers]

def probe : Module State := Probe.module counters

/-- A function that always gives the same result. -/
def constant (v : Value) : Operator := .instant fun _ => .ok v

/-- A counter as a component type. -/
def counterFactory : Factory State := Factory.lift counters Probe.counter

end Patchbay.Modules
