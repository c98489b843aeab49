/-!
# Splitting and reading plain text

Small readers over characters: a split at the first or the last separator, and unsigned numbers.
-/

namespace Patchbay.Text

/-- The text before the first `separator` and the text after it; `before` is in reverse. -/
def splitFirst (separator : List Char) (before : List Char) :
    List Char → Option (List Char × List Char)
  | [] => none
  | c :: text =>
    if separator.isPrefixOf (c :: text) then
      some (before.reverse, (c :: text).drop separator.length)
    else splitFirst separator (c :: before) text

/-- The text before the last `separator` and the text after it. -/
def splitLast (separator : Char) (text : List Char) : Option (List Char × List Char) :=
  (splitFirst [separator] [] text.reverse).map fun (after, before) =>
    (before.reverse, after.reverse)

/-- A number in decimal digits, leading zeros and one plus sign allowed, not above `limit`. -/
def unsigned? (limit : Nat) (text : List Char) : Option Nat :=
  let digits :=
    match text with
    | '+' :: digits => digits
    | digits => digits
  if digits.isEmpty || !digits.all Char.isDigit then none
  else
    let n := digits.foldl (fun n c => n * 10 + (c.toNat - '0'.toNat)) 0
    if n ≤ limit then some n else none

end Patchbay.Text
