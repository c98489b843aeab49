import Patchbay.Bytes
import Patchbay.Value

/-!
# MessagePack heads

A document is a *head* followed by what the head announces: nothing for a scalar, the bytes of a
text, the items of an array, the entries of a map. `Head.put` writes a head in its smallest form;
`Head.take?` reads every form, so several byte strings may stand for one head.
-/

namespace Patchbay.MessagePack

/-- What the first bytes of a document say. Lengths count bytes, items or entries. -/
inductive Head where
  | nil
  | bool (b : Bool)
  | int (i : Int)
  | float (x : Binary64)
  | text (length : Nat)
  | binary (length : Nat)
  | array (length : Nat)
  | map (length : Nat)
  | other
  deriving DecidableEq

namespace Head

/-- A number that is not negative in the first of the forms fixint, 8, 16, 32, 64 bits that holds
it. -/
def putNat (n : Nat) : Bytes :=
  if n < 0x80 then [n.toUInt8]
  else if n < 0x100 then 0xCC :: Bytes.bigEndian 1 n
  else if n < 0x10000 then 0xCD :: Bytes.bigEndian 2 n
  else if n < 0x100000000 then 0xCE :: Bytes.bigEndian 4 n
  else 0xCF :: Bytes.bigEndian 8 n

/-- `-(n + 1)` in two's complement, again in the smallest form. -/
def putNegative (n : Nat) : Bytes :=
  if n < 0x20 then [(0xFF - n).toUInt8]
  else if n < 0x80 then 0xD0 :: Bytes.bigEndian 1 (0xFF - n)
  else if n < 0x8000 then 0xD1 :: Bytes.bigEndian 2 (0xFFFF - n)
  else if n < 0x80000000 then 0xD2 :: Bytes.bigEndian 4 (0xFFFFFFFF - n)
  else 0xD3 :: Bytes.bigEndian 8 (0xFFFFFFFFFFFFFFFF - n)

def putInt : Int → Bytes
  | .ofNat n => putNat n
  | .negSucc n => putNegative n

/-- The smallest form of a head. A binary head and the unused markers have no value and are never
written. -/
def put : Head → Bytes
  | nil => [0xC0]
  | bool b => [if b then 0xC3 else 0xC2]
  | int i => putInt i
  | float x => 0xCB :: Bytes.bigEndian 8 x.bits.toNat
  | text n =>
    if n < 0x20 then [(0xA0 + n).toUInt8]
    else if n < 0x100 then 0xD9 :: Bytes.bigEndian 1 n
    else if n < 0x10000 then 0xDA :: Bytes.bigEndian 2 n
    else 0xDB :: Bytes.bigEndian 4 n
  | array n =>
    if n < 0x10 then [(0x90 + n).toUInt8]
    else if n < 0x10000 then 0xDC :: Bytes.bigEndian 2 n
    else 0xDD :: Bytes.bigEndian 4 n
  | map n =>
    if n < 0x10 then [(0x80 + n).toUInt8]
    else if n < 0x10000 then 0xDE :: Bytes.bigEndian 2 n
    else 0xDF :: Bytes.bigEndian 4 n
  | binary _ | other => []

/-- A big-endian field of `width` bytes, turned into a head. -/
def field? (width : Nat) (head : Nat → Head) (bytes : Bytes) : Option (Head × Bytes) :=
  (Bytes.split? width bytes).map fun (front, rest) => (head (Bytes.ofBigEndian front), rest)

/-- `n` as a two's complement number of `width` bytes. -/
def signed (width n : Nat) : Int := Int.bmod n (Nat.pow 256 width)

/-- The head at the start of `bytes` and the rest; nothing when the bytes end inside it. -/
def take? : Bytes → Option (Head × Bytes)
  | [] => none
  | marker :: rest =>
    let m := marker.toNat
    if m < 0x80 then some (int m, rest)
    else if m < 0x90 then some (map (m - 0x80), rest)
    else if m < 0xA0 then some (array (m - 0x90), rest)
    else if m < 0xC0 then some (text (m - 0xA0), rest)
    else if 0xE0 ≤ m then some (int ((m : Int) - 0x100), rest)
    else match m with
      | 0xC0 => some (nil, rest)
      | 0xC2 => some (bool false, rest)
      | 0xC3 => some (bool true, rest)
      | 0xC4 => field? 1 binary rest
      | 0xC5 => field? 2 binary rest
      | 0xC6 => field? 4 binary rest
      | 0xCA => field? 4 (fun n => float (Binary64.ofBinary32 n.toUInt32)) rest
      | 0xCB => field? 8 (fun n => float ⟨n.toUInt64⟩) rest
      | 0xCC => field? 1 (fun n => int n) rest
      | 0xCD => field? 2 (fun n => int n) rest
      | 0xCE => field? 4 (fun n => int n) rest
      | 0xCF => field? 8 (fun n => int n) rest
      | 0xD0 => field? 1 (fun n => int (signed 1 n)) rest
      | 0xD1 => field? 2 (fun n => int (signed 2 n)) rest
      | 0xD2 => field? 4 (fun n => int (signed 4 n)) rest
      | 0xD3 => field? 8 (fun n => int (signed 8 n)) rest
      | 0xD9 => field? 1 text rest
      | 0xDA => field? 2 text rest
      | 0xDB => field? 4 text rest
      | 0xDC => field? 2 array rest
      | 0xDD => field? 4 array rest
      | 0xDE => field? 2 map rest
      | 0xDF => field? 4 map rest
      | _ => some (other, rest)

end Head

end Patchbay.MessagePack
