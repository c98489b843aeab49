import Patchbay.Binary64

/-!
# JSON numbers

A number literal is scanned first and valued afterwards. An integer literal that fits 64 bits is
exact; any other literal is a float, made of a 64-bit significand and a power of ten: the digits
beyond the significand only move the exponent, and the power is applied in steps of at most `10 ^
308`.
-/

namespace Patchbay.Json

/-- What a number literal stands for. -/
inductive Number where
  | natural (n : Nat)
  | negative (i : Int64)
  | float (x : Binary64)
  deriving DecidableEq

/-- The parts of a number literal; an absent fraction is empty. -/
structure Literal where
  negative : Bool
  whole : List Char
  fraction : List Char
  exponent : Option (Bool × List Char)
  deriving DecidableEq

namespace Literal

def digit (c : Char) : Nat := c.toNat - '0'.toNat

/-- At least one digit, and the rest. -/
def scanDigits (text : List Char) : Option (List Char × List Char) :=
  match text.span Char.isDigit with
  | ([], _) => none
  | found => some found

/-- The whole part: a zero stands alone. -/
def scanWhole (text : List Char) : Option (List Char × List Char) :=
  match scanDigits text with
  | some ('0' :: _ :: _, _) => none
  | found => found

def scanFraction : List Char → Option (List Char × List Char)
  | '.' :: text => scanDigits text
  | text => some ([], text)

/-- The sign of the exponent, true when it is negative, and its digits. -/
def scanExponent : List Char → Option (Option (Bool × List Char) × List Char)
  | c :: text =>
    if c = 'e' ∨ c = 'E' then
      let (negative, text) :=
        match text with
        | '-' :: text => (true, text)
        | '+' :: text => (false, text)
        | text => (false, text)
      (scanDigits text).map fun (digits, rest) => (some (negative, digits), rest)
    else some (none, c :: text)
  | [] => some (none, [])

/-- The literal at the start of a text and what follows it. -/
def scan (text : List Char) : Option (Literal × List Char) := do
  let (negative, text) :=
    match text with
    | '-' :: text => (true, text)
    | text => (false, text)
  let (whole, text) ← scanWhole text
  let (fraction, text) ← scanFraction text
  let (exponent, text) ← scanExponent text
  some (⟨negative, whole, fraction, exponent⟩, text)

/-- Appends digits to a significand while it fits 64 bits; also the digits left over. -/
def extend (significand : Nat) : List Char → Nat × List Char
  | [] => (significand, [])
  | c :: rest =>
    let next := significand * 10 + digit c
    if next < 0x10000000000000000 then extend next rest else (significand, c :: rest)

/-- `x * 10 ^ exponent`. Beyond `10 ^ 308` a quotient is taken in steps, and a product is refused
unless it is zero. `fuel` bounds the steps; after three of them nothing is left of a 64-bit number.
-/
def scale (fuel : Nat) (x : Binary64) (exponent : Int) : Option Binary64 :=
  match fuel with
  | 0 => some x
  | fuel + 1 =>
    if exponent.natAbs ≤ 308 then
      let power := Binary64.powerOfTen exponent.natAbs
      if 0 ≤ exponent then
        let y := x.mul power
        if y.isFinite then some y else none
      else some (x.div power)
    else if x.isZero then some x
    else if 0 ≤ exponent then none
    else scale fuel (x.div (Binary64.powerOfTen 308)) (exponent + 308)

def signed (negative : Bool) (x : Binary64) : Binary64 := if negative then x.neg else x

/-- The exponent as a number; nothing when its digits exceed 31 bits. -/
def exponentValue : Option (Bool × List Char) → Option Int
  | none => some 0
  | some (negative, digits) =>
    let n := digits.foldl (fun n c => n * 10 + digit c) 0
    if n < 0x80000000 then some (if negative then -(n : Int) else n) else none

/-- The float of a literal; nothing when it is too large. -/
def float? (l : Literal) : Option Binary64 :=
  let (head, dropped) := extend 0 l.whole
  let (significand, beyond) := extend head l.fraction
  let point : Int := (dropped.length : Int) - ((l.fraction.length - beyond.length : Nat) : Int)
  match exponentValue l.exponent with
  | some e => (scale 4 (Binary64.ofNat significand) (point + e)).map (signed l.negative)
  | none =>
    let upward := (l.exponent.map Prod.fst) = some false
    if significand ≠ 0 ∧ upward then none else some (Binary64.zero l.negative)

/-- The number a literal stands for; nothing when no finite number is near it. A negative zero and
an integer below 64 bits are floats. -/
def number? (l : Literal) : Option Number :=
  if l.fraction.isEmpty && l.exponent.isNone then
    match extend 0 l.whole with
    | (n, []) =>
      if !l.negative then some (.natural n)
      else if 0 < n ∧ n ≤ 0x8000000000000000 then some (.negative (Int64.ofInt (-(n : Int))))
      else some (.float (Binary64.ofNat n).neg)
    | _ => l.float?.map .float
  else l.float?.map .float

end Literal

end Patchbay.Json
