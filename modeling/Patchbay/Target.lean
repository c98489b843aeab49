import Patchbay.Value
import Patchbay.Fault

/-!
# Instructions and their targets

An execute packet carries an instruction and names what it acts on in its headers. Subscriptions are
to targets. Writing a target into headers and reading it back are inverse, whatever else they hold.
-/

namespace Patchbay

inductive Instruction where
  | callFunction
  | defineComponent
  | deleteComponent
  | callMethod
  deriving DecidableEq, Repr

namespace Instruction

def code : Instruction → UInt8
  | callFunction => 0
  | defineComponent => 1
  | deleteComponent => 2
  | callMethod => 3

def ofCode : UInt8 → Except Violation Instruction
  | 0 => .ok callFunction
  | 1 => .ok defineComponent
  | 2 => .ok deleteComponent
  | 3 => .ok callMethod
  | other => .error (.unknownInstruction other)

def name : Instruction → String
  | callFunction => "call_function"
  | defineComponent => "define_component"
  | deleteComponent => "delete_component"
  | callMethod => "call_method"

def all : List Instruction := [callFunction, defineComponent, deleteComponent, callMethod]

def ofName? (name : String) : Option Instruction := all.find? fun i => i.name == name

end Instruction

/-- What an instruction acts on. -/
inductive Target where
  | function (name : String)
  | componentType (type : String)
  | component (name : String)
  | method (component method : String)
  deriving DecidableEq, Repr

/-! The names of the headers that have a meaning. -/

namespace Header

def function := "function"
def type := "type"
def component := "component"
def method := "method"
def done := "done"
def version := "version"

end Header

namespace Target

def instruction : Target → Instruction
  | function _ => .callFunction
  | componentType _ => .defineComponent
  | component _ => .deleteComponent
  | method .. => .callMethod

def name : Target → String
  | function name => name
  | componentType type => type
  | component name => name
  | method owner called => owner ++ "/" ++ called

/-- The instruction and the name, as texts show a target. -/
def text (t : Target) : String := t.instruction.name ++ "/" ++ t.name

/-- Names the target in headers, over whatever its fields held. -/
def writeHeaders (headers : Fields) : Target → Fields
  | function name => headers.set Header.function (.string name)
  | componentType type => headers.set Header.type (.string type)
  | component name => headers.set Header.component (.string name)
  | method owner called =>
    (headers.set Header.component (.string owner)).set Header.method (.string called)

/-- The text of a header. -/
def headerText (headers : Fields) (key : String) : Except Violation String :=
  match (headers.find key).bind Value.asString? with
  | some text => .ok text
  | none => .error (.missingHeader key)

/-- The target that headers name for an instruction. -/
def ofHeaders (headers : Fields) : Instruction → Except Violation Target
  | .callFunction => return function (← headerText headers Header.function)
  | .defineComponent => return componentType (← headerText headers Header.type)
  | .deleteComponent => return component (← headerText headers Header.component)
  | .callMethod => do
    let owner ← headerText headers Header.component
    let called ← headerText headers Header.method
    return method owner called

end Target

end Patchbay
