/-!
# Transaction ids

An id that a client makes up itself has the shape of a random UUID: five groups of lower-case
hexadecimal digits. It is made of two numbers, so that ids of different clients differ, and ids of
one client too.
-/

namespace Patchbay.TransactionId

/-- The last `width` hexadecimal digits of a number. -/
def hex : (width n : Nat) → List Char
  | 0, _ => []
  | width + 1, n => hex width (n / 16) ++ [Nat.digitChar (n % 16)]

/-- The `n`th id of a client. -/
def make (client n : Nat) : String :=
  String.ofList
    (hex 8 (client / 65536) ++ '-' :: hex 4 client ++ "-4000-8000-".toList ++ hex 12 n)

def isHex (c : Char) : Bool := c.isDigit || ('a' ≤ c && c ≤ 'f')

/-- The lengths of the groups. -/
def groups : List Nat := [8, 4, 4, 4, 12]

/-- How long an id is, with the dashes between its groups. -/
def length : Nat := 36

/-- Whether a text has the shape of such an id. -/
def hasShape (text : List Char) : Bool :=
  let parts := text.splitOn '-'
  parts.map List.length == groups && parts.all fun part => part.all isHex

/-- A text in which what has the shape of an id is replaced; `skip` characters are left out first.
-/
def replace (name : String → String) (skip : Nat) (out : String) : List Char → String
  | [] => out
  | c :: rest =>
    match skip with
    | skip + 1 => replace name skip out rest
    | 0 =>
      let id := (c :: rest).take length
      if hasShape id then replace name (length - 1) (out ++ name (String.ofList id)) rest
      else replace name 0 (out.push c) rest

/-- A text in which ids are hidden: those that have a name behind their name, all others behind
`other`. -/
def hide (names : List (String × String)) (other text : String) : String :=
  replace (fun id => (names.lookup id).getD other) 0 "" text.toList

end Patchbay.TransactionId
