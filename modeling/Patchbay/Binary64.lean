/-!
# Binary64 numbers

IEEE 754 double precision numbers, kept as their bits. `ofRatio` is the one place where a real
number is rounded: to nearest, ties to the even significand. Products, quotients and conversions are
exact fractions handed to it, so every operation here is plain arithmetic on naturals.
-/

namespace Patchbay

/-- A double precision number, by its 64 bits. -/
structure Binary64 where
  bits : UInt64
  deriving DecidableEq, Inhabited

namespace Binary64

def negative (x : Binary64) : Bool := x.bits >>> 63 == 1

/-- The biased exponent field. -/
def exponent (x : Binary64) : Nat := ((x.bits >>> 52) &&& 0x7FF).toNat

/-- The stored bits of the significand. -/
def fraction (x : Binary64) : Nat := (x.bits &&& 0xFFFFFFFFFFFFF).toNat

def isFinite (x : Binary64) : Bool := x.exponent != 2047

def isNaN (x : Binary64) : Bool := x.exponent == 2047 && x.fraction != 0

def isZero (x : Binary64) : Bool := x.exponent == 0 && x.fraction == 0

/-- Equality of numbers: a NaN differs from everything, the two zeros are equal. -/
def eq (x y : Binary64) : Bool :=
  !x.isNaN && !y.isNaN && (x.bits == y.bits || (x.isZero && y.isZero))

def nan : Binary64 := ⟨0x7FF8000000000000⟩

def infinity (negative : Bool) : Binary64 :=
  ⟨if negative then 0xFFF0000000000000 else 0x7FF0000000000000⟩

def zero (negative : Bool) : Binary64 := ⟨if negative then 0x8000000000000000 else 0⟩

def neg (x : Binary64) : Binary64 := ⟨x.bits ^^^ 0x8000000000000000⟩

/-- The significand with its leading bit, so that a finite magnitude is
`significand * 2 ^ (binade - 1074)`. -/
def significand (x : Binary64) : Nat :=
  if x.exponent = 0 then x.fraction else x.fraction + 0x10000000000000

def binade (x : Binary64) : Nat := x.exponent - 1

/-- The magnitude of a finite number over the common denominator `2 ^ 1074`. -/
def magnitude (x : Binary64) : Nat := x.significand * Nat.pow 2 x.binade

/-- `num / den` to the nearest natural, a half to the even one. -/
def roundDiv (num den : Nat) : Nat :=
  let q := num / den
  let twice := 2 * (num % den)
  if twice < den then q
  else if den < twice then q + 1
  else q + q % 2

/-- The largest `e` with `2 ^ e ≤ num / den`, where neither is zero. -/
def floorLog2 (num den : Nat) : Int :=
  let guess : Int := (num.log2 : Int) - (den.log2 : Int)
  let reached :=
    if 0 ≤ guess then den * Nat.pow 2 guess.toNat ≤ num else den ≤ num * Nat.pow 2 (-guess).toNat
  if reached then guess else guess - 1

/-- The number nearest to `num / den` with the given sign; too large a quotient gives infinity. -/
def ofRatio (negative : Bool) (num den : Nat) : Binary64 :=
  if num = 0 then zero negative
  else
    let binade := (max (floorLog2 num den - 52) (-1074) + 1074).toNat
    let significand :=
      if binade < 1074 then roundDiv (num * Nat.pow 2 (1074 - binade)) den
      else roundDiv num (den * Nat.pow 2 (binade - 1074))
    let bits := binade * 0x10000000000000 + significand
    if 0x7FF0000000000000 ≤ bits then infinity negative
    else ⟨bits.toUInt64 ||| (zero negative).bits⟩

def ofNat (n : Nat) : Binary64 := ofRatio false n 1

/-- The product of two finite numbers, rounded once. -/
def mul (x y : Binary64) : Binary64 :=
  ofRatio (x.negative != y.negative) (x.magnitude * y.magnitude) (Nat.pow 2 2148)

/-- The quotient of two finite numbers, rounded once; the divisor is not zero. -/
def div (x y : Binary64) : Binary64 :=
  ofRatio (x.negative != y.negative) x.magnitude y.magnitude

/-- The number nearest to `10 ^ n`. -/
def powerOfTen (n : Nat) : Binary64 := ofNat (Nat.pow 10 n)

/-- A single precision number, by its bits, without loss. -/
def ofBinary32 (bits : UInt32) : Binary64 :=
  let negative := bits >>> 31 == 1
  let exponent := ((bits >>> 23) &&& 0xFF).toNat
  let fraction := (bits &&& 0x7FFFFF).toNat
  if exponent = 255 then
    if fraction = 0 then infinity negative
    else ⟨(zero negative).bits ||| 0x7FF8000000000000 ||| (fraction * 0x20000000).toUInt64⟩
  else
    let significand := if exponent = 0 then fraction else fraction + 0x800000
    ofRatio negative (significand * Nat.pow 2 (exponent - 1)) (Nat.pow 2 149)

end Binary64

end Patchbay
