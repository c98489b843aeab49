import Patchbay.Text.Invisible

/-!
# Text inside a message

A text is shown between quotes, with escapes for quotes, backslashes and what would not be seen.
-/

namespace Patchbay.Text

/-- The lower-case hexadecimal digits of a number. -/
def hexDigits (n : Nat) : String := String.ofList (Nat.toDigits 16 n)

def showChar (out : String) (c : Char) : String :=
  match c with
  | '"' => out ++ "\\\""
  | '\\' => out ++ "\\\\"
  | '\n' => out ++ "\\n"
  | '\t' => out ++ "\\t"
  | '\r' => out ++ "\\r"
  | '\x00' => out ++ "\\0"
  | c =>
    if isInvisible c then out ++ "\\u\x7b" ++ hexDigits c.toNat ++ "\x7d" else out.push c

/-- A text between quotes. -/
def shown (s : String) : String := (s.toList.foldl showChar "\"").push '"'

end Patchbay.Text
