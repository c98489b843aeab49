import Patchbay.Value
import Patchbay.Fault

/-!
# Operator arguments

Typed access to the arguments of an operator. A missing field is out of range, a present one of
another kind is a type fault, and both name the operator. An optional field may be null.
-/

namespace Patchbay

/-- The arguments of the operator `op`. -/
structure Args where
  op : String
  fields : Fields

namespace Args

/-- Arguments are a map; null stands for the empty one. -/
def ofValue (op : String) : Value → Except Fault Args
  | .map fields => .ok ⟨op, fields⟩
  | .null => .ok ⟨op, []⟩
  | v => .error (.wrongType op "args" "map" v.typeName)

def typeFault (a : Args) (field expected : String) (v : Value) : Fault :=
  .wrongType a.op field expected v.typeName

def required (a : Args) (field : String) : Except Fault Value :=
  match a.fields.find field with
  | some v => .ok v
  | none => .error (.outOfRange a.op field)

/-- A required field that `view` has to accept. -/
def requiredAs (a : Args) (expected : String) (view : Value → Option α) (field : String) :
    Except Fault α := do
  let v ← a.required field
  match view v with
  | some x => .ok x
  | none => .error (a.typeFault field expected v)

/-- A field that may be absent or null, and otherwise has to be accepted by `view`. -/
def optionalAs (a : Args) (expected : String) (view : Value → Option α) (field : String) :
    Except Fault (Option α) :=
  match a.fields.find field with
  | none | some .null => .ok none
  | some v =>
    match view v with
    | some x => .ok (some x)
    | none => .error (a.typeFault field expected v)

def string (a : Args) : String → Except Fault String := a.requiredAs "string" Value.asString?

def string? (a : Args) : String → Except Fault (Option String) :=
  a.optionalAs "string" Value.asString?

def int (a : Args) : String → Except Fault Int64 := a.requiredAs "int" Value.asInt?

def int? (a : Args) : String → Except Fault (Option Int64) := a.optionalAs "int" Value.asInt?

def array (a : Args) : String → Except Fault (List Value) := a.requiredAs "array" Value.asArray?

def mapField (a : Args) : String → Except Fault Fields := a.requiredAs "map" Value.asMap?

/-- An integer between `low` and `high`, both included. -/
def intIn (a : Args) (field : String) (low high : Int64) : Except Fault Int64 := do
  let n ← a.int field
  if low ≤ n ∧ n ≤ high then .ok n else .error (.outOfRange a.op field)

end Args

end Patchbay
