import Std.Data.HashMap
import Std.Data.HashSet
import Patchbay.Json.Value

/-!
# Generic JSON documents

The tolerant data model of JSON: of a repeated key the last value counts, at the place of the first,
and integers have the range of both 64-bit kinds. Values convert to documents and back; only floats
that are not finite are lost.
-/

namespace Patchbay.Json

inductive Document where
  | null
  | bool (b : Bool)
  | number (n : Number)
  | string (s : String)
  | array (items : List Document)
  | object (entries : List (String × Document))
  deriving Inhabited

namespace Document

/-- The entries whose keys are not `seen`, each with the value `latest` holds for its key. -/
def firstPlaces (latest : Std.HashMap String Document) (seen : Std.HashSet String)
    (found : List (String × Document)) : List (String × Document) → List (String × Document)
  | [] => found.reverse
  | (key, d) :: rest =>
    if seen.contains key then firstPlaces latest seen found rest
    else firstPlaces latest (seen.insert key) ((key, latest.getD key d) :: found) rest

/-- Of a repeated key the last value counts, at the place of the first. -/
def ofEntries (entries : List (String × Document)) : Document :=
  object (firstPlaces (Std.HashMap.ofList entries) ∅ [] entries)

def tolerant : Builder Document where
  null := null
  bool := bool
  number n := .ok (number n)
  string := string
  array := array
  object := ofEntries
  repeats := true

def ofText (text : String) : Except Defect Document := Json.read tolerant text.toList

/-- The number of an integer. -/
def integer (i : Int64) : Document :=
  if 0 ≤ i.toInt then number (.natural i.toInt.toNat) else number (.negative i)

mutual

def ofValue : Value → Document
  | .null => null
  | .bool b => bool b
  | .int i => integer i
  | .float x => if x.isFinite then number (.float x) else null
  | .string s => string s
  | .array items => array (ofItems items)
  | .map entries => object (ofFields entries)

def ofItems : List Value → List Document
  | [] => []
  | v :: rest => ofValue v :: ofItems rest

def ofFields : List (String × Value) → List (String × Document)
  | [] => []
  | (key, v) :: rest => (key, ofValue v) :: ofFields rest

end

mutual

/-- A number in the range of `Int` is an integer, any other a float. -/
def toValue : Document → Value
  | null => .null
  | bool b => .bool b
  | number (.natural n) =>
    if n < 0x8000000000000000 then .int (Int64.ofNat n) else .float (Binary64.ofNat n)
  | number (.negative i) => .int i
  | number (.float x) => .float x
  | string s => .string s
  | array items => .array (toItems items)
  | object entries => .map (toFields entries)

def toItems : List Document → List Value
  | [] => []
  | d :: rest => toValue d :: toItems rest

def toFields : List (String × Document) → List (String × Value)
  | [] => []
  | (key, d) :: rest => (key, toValue d) :: toFields rest

end

mutual

/-- Appends the text of a document. -/
def put (out : String) : Document → String
  | null => out ++ "null"
  | bool b => out ++ (if b then "true" else "false")
  | number (.natural n) => putInt out n
  | number (.negative i) => putInt out i.toInt
  | number (.float x) => out ++ floatText x
  | string s => Quoted.put out s
  | array items => (putItems (out ++ "[") true items) ++ "]"
  | object entries => (putEntries (out ++ "\x7b") true entries) ++ "\x7d"

def putItems (out : String) (first : Bool) : List Document → String
  | [] => out
  | d :: rest => putItems (put (if first then out else out ++ ",") d) false rest

def putEntries (out : String) (first : Bool) : List (String × Document) → String
  | [] => out
  | (key, d) :: rest =>
    putEntries (put (Quoted.put (if first then out else out ++ ",") key ++ ":") d) false rest

end

def render (d : Document) : String := put "" d

end Document

end Patchbay.Json
