import Patchbay.Value
import Patchbay.Json.Reader
import Patchbay.Json.Writer

/-!
# Values as JSON text

A value is read strictly: no object repeats a key, and no integer lies between the largest `Int` and
the end of the unsigned 64-bit range. Integers beyond are floats, as is a negative zero.
-/

namespace Patchbay.Value

open Json

def ofNumber : Number → Except Defect Value
  | .natural n =>
    if n < 0x8000000000000000 then .ok (.int (Int64.ofNat n)) else .error (.integerRange n)
  | .negative i => .ok (.int i)
  | .float x => .ok (.float x)

def strict : Builder Value where
  null := .null
  bool := .bool
  number := ofNumber
  string := .string
  array := .array
  object := .map
  repeats := false

def ofJson (text : String) : Except Defect Value := Json.read strict text.toList

mutual

/-- Appends the JSON text of a value. -/
def putJson (out : String) : Value → String
  | .null => out ++ "null"
  | .bool b => out ++ (if b then "true" else "false")
  | .int i => putInt out i.toInt
  | .float x => out ++ floatText x
  | .string s => Quoted.put out s
  | .array items => (putJsonItems (out ++ "[") true items) ++ "]"
  | .map entries => (putJsonEntries (out ++ "\x7b") true entries) ++ "\x7d"

def putJsonItems (out : String) (first : Bool) : List Value → String
  | [] => out
  | v :: rest => putJsonItems (putJson (if first then out else out ++ ",") v) false rest

def putJsonEntries (out : String) (first : Bool) : List (String × Value) → String
  | [] => out
  | (key, v) :: rest =>
    putJsonEntries
      (putJson (Quoted.put (if first then out else out ++ ",") key ++ ":") v) false rest

end

/-- The compact JSON text of a value, its keys in order. -/
def toJson (v : Value) : String := putJson "" v

end Patchbay.Value
