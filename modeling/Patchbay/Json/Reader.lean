import Std.Data.HashSet
import Patchbay.Json.Number
import Patchbay.Json.Quoted

/-!
# Reading JSON text

One reader serves every kind of document; what a document is made of, and whether an object may
repeat a key, is a `Builder`. The reader goes from left to right and stops at the first defect. Its
recursion is on the number of containers that may still be opened.
-/

namespace Patchbay.Json

/-- Why a text is not a document. Only `syntactic` is a defect of the text alone. -/
inductive Defect where
  | syntactic
  | duplicateKey (key : String)
  | integerRange (n : Nat)
  deriving DecidableEq, Repr

def Defect.message : Defect → String
  | syntactic => "not a JSON text"
  | duplicateKey key => s!"duplicate map key: {key}"
  | integerRange n => s!"integer {n} out of i64 range"

/-- How a document is put together from its parts. -/
structure Builder (α : Type) where
  null : α
  bool : Bool → α
  number : Number → Except Defect α
  string : String → α
  array : List α → α
  object : List (String × α) → α
  repeats : Bool

/-- A reader of one thing at the start of a text. -/
abbrev Reader (α : Type) := List Char → Except Defect (α × List Char)

def isBlank (c : Char) : Bool := c == ' ' || c == '\t' || c == '\n' || c == '\r'

def skipBlank : List Char → List Char
  | c :: text => if isBlank c then skipBlank text else c :: text
  | [] => []

/-- Containers may nest this deep. -/
def depthLimit : Nat := 127

def orSyntactic : Option α → Except Defect α
  | some a => .ok a
  | none => .error .syntactic

/-- The items up to the closing bracket, after those in `found`, which is in reverse; the text
stands at an item. `fuel` bounds the items: each takes at least one character. -/
def readItems (readItem : Reader α) (found : List α) : (fuel : Nat) → Reader (List α)
  | 0, _ => .error .syntactic
  | fuel + 1, text => do
    let (item, text) ← readItem text
    match skipBlank text with
    | ',' :: text => readItems readItem (item :: found) fuel text
    | ']' :: text => .ok ((item :: found).reverse, text)
    | _ => .error .syntactic

/-- A key in quotes. -/
def readKey : Reader String := fun text =>
  match skipBlank text with
  | '"' :: text => orSyntactic (Quoted.read text)
  | _ => .error .syntactic

/-- The entries up to the closing brace, after those in `found`, which is in reverse and whose keys
are `seen`. A repeated key is refused before the colon is read. -/
def readEntries (b : Builder α) (readItem : Reader α) (seen : Std.HashSet String)
    (found : List (String × α)) : (fuel : Nat) → Reader (List (String × α))
  | 0, _ => .error .syntactic
  | fuel + 1, text => do
    let (key, text) ← readKey text
    if !b.repeats && seen.contains key then .error (.duplicateKey key)
    else match skipBlank text with
    | ':' :: text => do
      let (item, text) ← readItem text
      match skipBlank text with
      | ',' :: text =>
        readEntries b readItem (seen.insert key) ((key, item) :: found) fuel text
      | '\x7d' :: text => .ok (((key, item) :: found).reverse, text)
      | _ => .error .syntactic
    | _ => .error .syntactic

/-- A document in which at most `depth` containers nest. -/
def readValue (b : Builder α) : (depth : Nat) → Reader α
  | depth, text =>
    match skipBlank text with
    | 'n' :: 'u' :: 'l' :: 'l' :: rest => .ok (b.null, rest)
    | 't' :: 'r' :: 'u' :: 'e' :: rest => .ok (b.bool true, rest)
    | 'f' :: 'a' :: 'l' :: 's' :: 'e' :: rest => .ok (b.bool false, rest)
    | '"' :: rest => do
      let (s, rest) ← orSyntactic (Quoted.read rest)
      .ok (b.string s, rest)
    | '[' :: rest =>
      match depth with
      | 0 => .error .syntactic
      | depth + 1 =>
        match skipBlank rest with
        | ']' :: rest => .ok (b.array [], rest)
        | _ => do
          let (items, rest) ← readItems (readValue b depth) [] rest.length rest
          .ok (b.array items, rest)
    | '\x7b' :: rest =>
      match depth with
      | 0 => .error .syntactic
      | depth + 1 =>
        match skipBlank rest with
        | '\x7d' :: rest => .ok (b.object [], rest)
        | _ => do
          let (entries, rest) ← readEntries b (readValue b depth) ∅ [] rest.length rest
          .ok (b.object entries, rest)
    | text => do
      let (literal, rest) ← orSyntactic (Literal.scan text)
      let number ← orSyntactic literal.number?
      let leaf ← b.number number
      .ok (leaf, rest)

/-- The document that a text is, blanks around it aside. -/
def read (b : Builder α) (text : List Char) : Except Defect α := do
  let (document, rest) ← readValue b depthLimit text
  if (skipBlank rest).isEmpty then .ok document else .error .syntactic

end Patchbay.Json
