import Patchbay.Binary64

/-!
# The shortest decimal that reads back

`Binary64.shortest` finds, for a finite number other than zero, the fewest decimal digits that lie
in the interval of reals rounding to it, and among those the digits nearest to it. For each count of
digits the interval is tested at the two neighbours of the number on that decimal grid: if any point
of the grid lies in the interval, so does one of these two.
-/

namespace Patchbay

/-- `digits * 10 ^ scale`, where `digits` does not end in zero. -/
structure Decimal where
  digits : Nat
  scale : Int
  deriving DecidableEq, Repr

namespace Decimal

/-- Trailing zeros moved from the digits into the scale; `fuel` bounds their number. -/
def strip (fuel : Nat) (d : Decimal) : Decimal :=
  match fuel with
  | 0 => d
  | fuel + 1 =>
    if d.digits ≠ 0 ∧ d.digits % 10 = 0 then strip fuel ⟨d.digits / 10, d.scale + 1⟩ else d

end Decimal

namespace Binary64

/-- The reals that round to a number, as fractions over one denominator. -/
structure Interval where
  low : Nat
  mid : Nat
  high : Nat
  den : Nat
  closed : Bool

/-- Halfway to each neighbour; at a power of two the lower neighbour is half as far. The ends belong
to the interval when the significand is even. -/
def interval (x : Binary64) : Interval :=
  let m := x.significand
  let unit := Nat.pow 2 x.binade
  let below := if m = 0x10000000000000 ∧ 1 < x.exponent then 1 else 2
  { low := (4 * m - below) * unit
    mid := 4 * m * unit
    high := (4 * m + 2) * unit
    den := 4 * Nat.pow 2 1074
    closed := m % 2 = 0 }

/-- Whether `num / den` lies in the interval. -/
def Interval.holds (i : Interval) (num den : Nat) : Bool :=
  let point := num * i.den
  let low := i.low * den
  let high := i.high * den
  if i.closed then low ≤ point && point ≤ high else low < point && point < high

/-- `10 ^ e` as a fraction. -/
def tenPow (e : Int) : Nat × Nat :=
  if 0 ≤ e then (Nat.pow 10 e.toNat, 1) else (1, Nat.pow 10 (-e).toNat)

/-- Moves `guess` up to the largest `k` with `10 ^ k ≤ num / den`; `fuel` bounds the distance. -/
def climb (num den : Nat) : Nat → Int → Int
  | 0, guess => guess
  | fuel + 1, guess =>
    let (p, q) := tenPow (guess + 1)
    if p * den ≤ num * q then climb num den fuel (guess + 1) else guess

/-- The largest `k` with `10 ^ k ≤ num / den`. The first guess is low by at most two. -/
def floorLog10 (num den : Nat) : Int :=
  climb num den 4 ((floorLog2 num den * 30103).fdiv 100000 - 1)

/-- The better of the two neighbours of the number on the grid of multiples of `10 ^ scale`, if one
of them lies in the interval. A tie goes to the even neighbour. -/
def onGrid (i : Interval) (scale : Int) : Option Decimal :=
  let (p, q) := tenPow scale
  let below := (i.mid * q) / (i.den * p)
  let fits (d : Nat) : Bool := i.holds (d * p) q
  let twice := 2 * (i.mid * q - below * (i.den * p))
  let nearer :=
    if twice < i.den * p then below
    else if i.den * p < twice then below + 1
    else below + below % 2
  let farther := if nearer = below then below + 1 else below
  if fits nearer then some ⟨nearer, scale⟩
  else if fits farther then some ⟨farther, scale⟩
  else none

/-- Grids of `count`, `count + 1`, … digits, until one has a point in the interval. -/
def searchGrid (i : Interval) (leading : Int) : Nat → Nat → Decimal
  | 0, _ => ⟨0, 0⟩
  | fuel + 1, count =>
    match onGrid i (leading - count) with
    | some d => d
    | none => searchGrid i leading fuel (count + 1)

/-- The shortest decimal that reads back as the magnitude of a finite number other than zero. -/
def shortest (x : Binary64) : Decimal :=
  let i := x.interval
  (searchGrid i (floorLog10 i.mid i.den) 18 0).strip 18

end Binary64

end Patchbay
