import Std.Data.HashMap
import Patchbay.Binary64

/-!
# Values

The tagged data of packet headers and bodies, of operator arguments and of results. A map keeps its
keys in the order in which they were first inserted. Floats are kept as bits, so two values can be
told apart exactly; `Value.agrees` is the data model's own equality, under which maps are unordered
and floats compare as numbers.
-/

namespace Patchbay

inductive Value where
  | null
  | bool (b : Bool)
  | int (i : Int64)
  | float (x : Binary64)
  | string (s : String)
  | array (items : List Value)
  | map (entries : List (String × Value))
  deriving Inhabited

/-- The entries of a map, in insertion order. -/
abbrev Fields := List (String × Value)

namespace Fields

/-- The value under `key`. -/
def find (fields : Fields) (key : String) : Option Value := fields.lookup key

/-- Writes `value` under `key`: in place where the key exists, at the end where it does not. -/
def set (fields : Fields) (key : String) (value : Value) : Fields :=
  match fields with
  | [] => [(key, value)]
  | (k, v) :: rest => if k = key then (k, value) :: rest else (k, v) :: set rest key value

/-- Writes the entries one after the other, so that of a repeated key the last value stays, at the
place of the first. -/
def ofList (entries : List (String × Value)) : Fields :=
  entries.foldl (fun fields entry => set fields entry.1 entry.2) []

end Fields

namespace Value

/-- The name of a value's kind, as error texts spell it. -/
def typeName : Value → String
  | null => "null"
  | bool _ => "bool"
  | int _ => "int"
  | float _ => "float"
  | string _ => "string"
  | array _ => "array"
  | map _ => "map"

def isNull : Value → Bool
  | null => true
  | _ => false

def asBool? : Value → Option Bool
  | bool b => some b
  | _ => none

def asInt? : Value → Option Int64
  | int i => some i
  | _ => none

def asFloat? : Value → Option Binary64
  | float x => some x
  | _ => none

def asString? : Value → Option String
  | string s => some s
  | _ => none

def asArray? : Value → Option (List Value)
  | array items => some items
  | _ => none

def asMap? : Value → Option Fields
  | map fields => some fields
  | _ => none

/-- The value under `key`, if this is a map that has it. -/
def get? (v : Value) (key : String) : Option Value := v.asMap?.bind (Fields.find · key)

/-- Writes into a map; a null first becomes the empty map. Any other value refuses. -/
def insert? (v : Value) (key : String) (value : Value) : Option Value :=
  match v with
  | null => some (map [(key, value)])
  | map fields => some (map (Fields.set fields key value))
  | _ => none

/-- A present value, or null. -/
def ofOption : Option Value → Value
  | some v => v
  | none => null

/-- A string of one character. -/
def ofChar (c : Char) : Value := string c.toString

def ofNat (n : Nat) : Value := int (Int64.ofNat n)

mutual

/-- How many containers are nested in one another, a scalar counting as none. -/
def depth : Value → Nat
  | array items => depthItems items + 1
  | map entries => depthEntries entries + 1
  | _ => 0

def depthItems : List Value → Nat
  | [] => 0
  | v :: rest => max (depth v) (depthItems rest)

def depthEntries : List (String × Value) → Nat
  | [] => 0
  | (_, v) :: rest => max (depth v) (depthEntries rest)

end

mutual

/-- No map, at any level, holds a key twice. Every value the readers accept and every value built by
the operations here has this property. -/
def KeysDistinct : Value → Prop
  | array items => KeysDistinctItems items
  | map entries => (entries.map Prod.fst).Nodup ∧ KeysDistinctEntries entries
  | _ => True

def KeysDistinctItems : List Value → Prop
  | [] => True
  | v :: rest => KeysDistinct v ∧ KeysDistinctItems rest

def KeysDistinctEntries : List (String × Value) → Prop
  | [] => True
  | (_, v) :: rest => KeysDistinct v ∧ KeysDistinctEntries rest

end

mutual

/-- Equality of data: maps agree when they have the same keys with agreeing values, in any order;
floats compare as numbers, so no value holding a NaN agrees with anything. -/
def agrees : Value → Value → Bool
  | null, null => true
  | bool a, bool b => a == b
  | int a, int b => a == b
  | float a, float b => a.eq b
  | string a, string b => a == b
  | array a, array b => agreesItems a b
  | map a, map b => a.length == b.length && agreesEntries a (Std.HashMap.ofList b)
  | _, _ => false

def agreesItems : List Value → List Value → Bool
  | [], [] => true
  | a :: as, b :: bs => if agrees a b then agreesItems as bs else false
  | _, _ => false

def agreesEntries : List (String × Value) → Std.HashMap String Value → Bool
  | [], _ => true
  | (key, a) :: as, others =>
    match others[key]? with
    | some b => if agrees a b then agreesEntries as others else false
    | none => false

end

end Value

/-- Two headers maps agree when the values made of them do. -/
def Fields.agree (a b : Fields) : Bool := (Value.map a).agrees (Value.map b)

end Patchbay
