import Patchbay.Binary64.Shortest
import Patchbay.Json.Quoted

/-!
# Writing JSON numbers and containers

Text is written compactly, by appending to what was written before.
-/

namespace Patchbay.Json

/-- Appends the decimal digits of an integer. -/
def putInt (out : String) (i : Int) : String := out ++ toString i

/-- A float has its shortest digits. With the first digit between `10 ^ -5` and `10 ^ 15` it is
written out, always with a fraction; otherwise it has an exponent, signed when it is positive, and a
fraction only if there is more than one digit. -/
def decimalText (d : Decimal) : String :=
  let digits := toString d.digits
  let count := digits.length
  let leading : Int := d.scale + count - 1
  if leading < -5 ∨ 15 < leading then
    let first := String.ofList (digits.toList.take 1)
    let others := String.ofList (digits.toList.drop 1)
    let point := if others.isEmpty then "" else "."
    let sign := if 0 ≤ leading then "+" else ""
    first ++ point ++ others ++ "e" ++ sign ++ toString leading
  else if 0 ≤ d.scale then
    digits ++ String.ofList (List.replicate d.scale.toNat '0') ++ ".0"
  else if 0 ≤ leading then
    let whole := (leading + 1).toNat
    String.ofList (digits.toList.take whole) ++ "." ++ String.ofList (digits.toList.drop whole)
  else
    "0." ++ String.ofList (List.replicate (-leading - 1).toNat '0') ++ digits

/-- A float; what is not finite has no number and is null. -/
def floatText (x : Binary64) : String :=
  if !x.isFinite then "null"
  else
    let sign := if x.negative then "-" else ""
    if x.isZero then sign ++ "0.0" else sign ++ decimalText x.shortest

end Patchbay.Json
