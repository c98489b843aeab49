import Std.Data.HashSet
import Patchbay.MessagePack
import Patchbay.Fault

/-!
# Reading a document

The reader goes from left to right and stops at the first defect. Its recursion is on the number of
containers that may still be opened, the reading of items on their announced number.
-/

namespace Patchbay.MessagePack

/-- A reader of one thing at the start of a byte string. -/
abbrev Reader (α : Type) := Bytes → Except DocumentDefect (α × Bytes)

/-- Containers may nest this deep. -/
def depthLimit : Nat := 1023

def readHead : Reader Head := fun bytes =>
  match Head.take? bytes with
  | some read => .ok read
  | none => .error .truncated

/-- `length` bytes of UTF-8. -/
def readText (length : Nat) : Reader String := fun bytes =>
  match Bytes.split? length bytes with
  | none => .error .truncated
  | some (front, rest) =>
    match Bytes.text? front with
    | some text => .ok (text, rest)
    | none => .error .notText

/-- A key is a text; bytes that are a text will do. -/
def readKey : Reader String := fun bytes => do
  let (head, rest) ← readHead bytes
  match head with
  | .text length | .binary length => readText length rest
  | _ => .error .unsupported

/-- `count` items after those in `found`, which is in reverse. -/
def readItems (readItem : Reader Value) (found : List Value) : (count : Nat) → Reader (List Value)
  | 0, bytes => .ok (found.reverse, bytes)
  | count + 1, bytes => do
    let (v, rest) ← readItem bytes
    readItems readItem (v :: found) count rest

/-- `count` entries after those in `found`, whose keys are `seen`. A key that was seen is refused
before its value is read. -/
def readEntries (readItem : Reader Value) (seen : Std.HashSet String) (found : Fields) :
    (count : Nat) → Reader Fields
  | 0, bytes => .ok (found.reverse, bytes)
  | count + 1, bytes => do
    let (key, rest) ← readKey bytes
    if seen.contains key then .error (.duplicateKey key)
    else
      let (v, rest) ← readItem rest
      readEntries readItem (seen.insert key) ((key, v) :: found) count rest

/-- An integer of the data model. -/
def readInt (i : Int) : Except DocumentDefect Value :=
  if i < 0x8000000000000000 then .ok (.int (Int64.ofInt i)) else .error (.integerRange i.toNat)

/-- A value in which at most `depth` containers nest. -/
def readValue : (depth : Nat) → Reader Value
  | depth, bytes => do
    let (head, rest) ← readHead bytes
    match head with
    | .nil => .ok (.null, rest)
    | .bool b => .ok (.bool b, rest)
    | .int i => do
      let v ← readInt i
      .ok (v, rest)
    | .float x => .ok (.float x, rest)
    | .text length => do
      let (text, rest) ← readText length rest
      .ok (.string text, rest)
    | .binary _ | .other => .error .unsupported
    | .array length =>
      match depth with
      | 0 => .error .tooDeep
      | depth + 1 => do
        let (items, rest) ← readItems (readValue depth) [] length rest
        .ok (.array items, rest)
    | .map length =>
      match depth with
      | 0 => .error .tooDeep
      | depth + 1 => do
        let (entries, rest) ← readEntries (readValue depth) ∅ [] length rest
        .ok (.map entries, rest)

/-- The value of which `bytes` is a document, with nothing left over. -/
def decode (bytes : Bytes) : Except DocumentDefect Value := do
  let (v, rest) ← readValue depthLimit bytes
  if rest.isEmpty then .ok v else .error (.trailing rest.length)

end Patchbay.MessagePack
