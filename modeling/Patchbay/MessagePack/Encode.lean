import Patchbay.MessagePack

/-!
# Writing a value as a document

Every head is written in its smallest form and every float in eight bytes; maps keep their order.
The writer pushes onto a buffer, so long and deep values need no stack for their siblings.
-/

namespace Patchbay.MessagePack

/-- A text with its head. -/
def pushText (out : Array UInt8) (s : String) : Array UInt8 :=
  let utf8 := s.toUTF8
  out ++ (Head.text utf8.size).put ++ utf8.data

mutual

/-- Appends the document of a value. -/
def push (out : Array UInt8) : Value → Array UInt8
  | .null => out ++ Head.nil.put
  | .bool b => out ++ (Head.bool b).put
  | .int i => out ++ (Head.int i.toInt).put
  | .float x => out ++ (Head.float x).put
  | .string s => pushText out s
  | .array items => pushItems (out ++ (Head.array items.length).put) items
  | .map entries => pushEntries (out ++ (Head.map entries.length).put) entries

def pushItems (out : Array UInt8) : List Value → Array UInt8
  | [] => out
  | v :: rest => pushItems (push out v) rest

def pushEntries (out : Array UInt8) : List (String × Value) → Array UInt8
  | [] => out
  | (key, v) :: rest => pushEntries (push (pushText out key) v) rest

end

/-- The document of a value. -/
def encode (v : Value) : Bytes := (push #[] v).toList

end Patchbay.MessagePack
