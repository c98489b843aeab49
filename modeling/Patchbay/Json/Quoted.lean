/-!
# Quoted text

A string literal is first cut into pieces, each a character or a 16-bit unit written in hexadecimal;
then the units are joined to characters. Writing escapes the quote, the backslash and the control
characters, and nothing else.
-/

namespace Patchbay.Json

/-- What one character or one escape of a literal contributes. -/
inductive Piece where
  | char (c : Char)
  | unit (n : Nat)
  deriving DecidableEq

namespace Quoted

/-- The value of a hexadecimal digit. -/
def hexDigit? (c : Char) : Option Nat :=
  if c.isDigit then some (c.toNat - '0'.toNat)
  else if 'a' ≤ c ∧ c ≤ 'f' then some (c.toNat - 'a'.toNat + 10)
  else if 'A' ≤ c ∧ c ≤ 'F' then some (c.toNat - 'A'.toNat + 10)
  else none

def hexUnit? (a b c d : Char) : Option Nat := do
  let a ← hexDigit? a
  let b ← hexDigit? b
  let c ← hexDigit? c
  let d ← hexDigit? d
  some (((a * 16 + b) * 16 + c) * 16 + d)

/-- The character of a one-letter escape. -/
def short? : Char → Option Char
  | '"' => some '"'
  | '\\' => some '\\'
  | '/' => some '/'
  | 'b' => some '\x08'
  | 'f' => some '\x0c'
  | 'n' => some '\n'
  | 'r' => some '\r'
  | 't' => some '\t'
  | _ => none

/-- The pieces up to the closing quote, after those in `found`, which is in reverse; and what
follows the quote. Control characters have to be escaped. -/
def scan (found : List Piece) : List Char → Option (List Piece × List Char)
  | [] => none
  | '"' :: rest => some (found.reverse, rest)
  | '\\' :: 'u' :: a :: b :: c :: d :: rest =>
    match hexUnit? a b c d with
    | some n => scan (.unit n :: found) rest
    | none => none
  | '\\' :: e :: rest =>
    match short? e with
    | some c => scan (.char c :: found) rest
    | none => none
  | c :: rest => if c.toNat < 0x20 ∨ c = '\\' then none else scan (.char c :: found) rest

def isLead (n : Nat) : Bool := 0xD800 ≤ n && n < 0xDC00

def isTrail (n : Nat) : Bool := 0xDC00 ≤ n && n < 0xE000

/-- The characters of the pieces, after those in `text`: a leading unit joins the trailing unit that
follows it, and no such unit stands alone. -/
def join (text : String) : List Piece → Option String
  | [] => some text
  | .char c :: rest => join (text.push c) rest
  | .unit n :: rest =>
    if isTrail n then none
    else if isLead n then
      match rest with
      | .unit m :: rest =>
        if isTrail m then
          join (text.push (Char.ofNat (0x10000 + (n - 0xD800) * 0x400 + (m - 0xDC00)))) rest
        else none
      | _ => none
    else join (text.push (Char.ofNat n)) rest

/-- The text of the literal whose opening quote has been read. -/
def read (text : List Char) : Option (String × List Char) := do
  let (pieces, rest) ← scan [] text
  let s ← join "" pieces
  some (s, rest)

/-- Appends a character as it stands in a literal. -/
def putChar (out : String) (c : Char) : String :=
  match c with
  | '"' => out ++ "\\\""
  | '\\' => out ++ "\\\\"
  | '\x08' => out ++ "\\b"
  | '\x0c' => out ++ "\\f"
  | '\n' => out ++ "\\n"
  | '\r' => out ++ "\\r"
  | '\t' => out ++ "\\t"
  | c =>
    if c.toNat < 0x20 then
      ((out ++ "\\u00").push (Nat.digitChar (c.toNat / 16))).push (Nat.digitChar (c.toNat % 16))
    else out.push c

/-- Appends a text in quotes. -/
def put (out : String) (s : String) : String := (s.toList.foldl putChar (out.push '"')).push '"'

end Quoted

end Patchbay.Json
