import Patchbay.Component

/-!
# The registry

All functions and component types of a list of modules. No two modules may contribute the same
function name, nor the same type name; a function and a type may share one. The first clash is
reported, modules in order, functions before types.
-/

namespace Patchbay

/-- A registered item and the module it is from. -/
structure Entry (α : Type) where
  source : String
  item : α

structure Registry (σ : Type) where
  functions : Table String (Entry Operator)
  types : Table String (Entry (Factory σ))

namespace Registry

def empty : Registry σ := ⟨[], []⟩

/-- Adds the items of a module; `kind` names them in a clash. -/
def merge (kind source : String) (table : Table String (Entry α)) :
    Table String α → Except Fault (Table String (Entry α))
  | [] => .ok table
  | (name, item) :: rest =>
    match Table.find? table name with
    | some first => .error (.duplicateName kind name first.source source)
    | none => merge kind source (table ++ [(name, ⟨source, item⟩)]) rest

def add (r : Registry σ) (m : Module σ) : Except Fault (Registry σ) := do
  let functions ← merge "function" m.name r.functions m.functions
  let types ← merge "component type" m.name r.types m.types
  return ⟨functions, types⟩

def ofModules (modules : List (Module σ)) : Except Fault (Registry σ) := modules.foldlM add empty

def function? (r : Registry σ) (name : String) : Option Operator :=
  (Table.find? r.functions name).map Entry.item

def factory? (r : Registry σ) (name : String) : Option (Factory σ) :=
  (Table.find? r.types name).map Entry.item

end Registry

end Patchbay
