import Mathlib.Data.List.TakeDrop
import Mathlib.Data.List.TakeWhile
import Patchbay.Json.Number

/-!
# Number literals

The grammar of a number literal, and what stands behind one. A literal is scanned from its characters
when what follows does not go on with it, and every literal that is scanned stands in front. The
decimal digits of an integer are a literal, whose number is that integer.
-/

namespace Patchbay.Json.Literal

variable {text rest front ds : List Char} {l : Literal}

/-! ## The grammar -/

def Digits (ds : List Char) : Prop := ds ≠ [] ∧ ∀ c ∈ ds, c.isDigit

/-- A zero in front stands alone. -/
def Whole (ds : List Char) : Prop := Digits ds ∧ (ds.head? = some '0' → ds = ['0'])

inductive Fraction : List Char → List Char → Prop where
  | none : Fraction [] []
  | digits {ds : List Char} (digits : Digits ds) : Fraction ('.' :: ds) ds

inductive Exponent : List Char → Option (Bool × List Char) → Prop where
  | none : Exponent [] none
  | plain {mark : Char} {ds : List Char} (marks : mark = 'e' ∨ mark = 'E') (digits : Digits ds) :
      Exponent (mark :: ds) (some (false, ds))
  | plus {mark : Char} {ds : List Char} (marks : mark = 'e' ∨ mark = 'E') (digits : Digits ds) :
      Exponent (mark :: '+' :: ds) (some (false, ds))
  | minus {mark : Char} {ds : List Char} (marks : mark = 'e' ∨ mark = 'E') (digits : Digits ds) :
      Exponent (mark :: '-' :: ds) (some (true, ds))

/-- These characters are this literal. -/
inductive Spells : List Char → Literal → Prop where
  | positive {whole front fraction back : List Char} {exponent : Option (Bool × List Char)}
      (digits : Whole whole) (fractional : Fraction front fraction)
      (scaled : Exponent back exponent) :
      Spells (whole ++ front ++ back) ⟨false, whole, fraction, exponent⟩
  | negative {whole front fraction back : List Char} {exponent : Option (Bool × List Char)}
      (digits : Whole whole) (fractional : Fraction front fraction)
      (scaled : Exponent back exponent) :
      Spells ('-' :: (whole ++ front ++ back)) ⟨true, whole, fraction, exponent⟩

/-! ## What follows -/

def NoDigit (rest : List Char) : Prop := ∀ c, rest.head? = some c → c.isDigit = false

/-- No literal goes on with this. -/
def Stops (rest : List Char) : Prop :=
  ∀ c, rest.head? = some c → c.isDigit = false ∧ c ≠ '.' ∧ c ≠ 'e' ∧ c ≠ 'E'

theorem stops_cons {c : Char} :
    Stops (c :: rest) ↔ c.isDigit = false ∧ c ≠ '.' ∧ c ≠ 'e' ∧ c ≠ 'E' := by
  simp [Stops]

theorem stops_nil : Stops [] := nofun

theorem Stops.noDigit (stops : Stops rest) : NoDigit rest := fun c first => (stops c first).1

theorem Digits.head (some : Digits ds) : ∃ c others, ds = c :: others ∧ c.isDigit := by
  obtain ⟨nonempty, digits⟩ := some
  cases ds with
  | nil => exact absurd rfl nonempty
  | cons c others => exact ⟨c, others, rfl, digits c List.mem_cons_self⟩

/-! ## Scanning -/

theorem scanDigits_eq_some_iff :
    scanDigits text = some (ds, rest) ↔ Digits ds ∧ text = ds ++ rest ∧ NoDigit rest := by
  rw [scanDigits, List.span_eq_takeWhile_dropWhile]
  constructor
  · intro scanned
    split at scanned
    · cases scanned
    · next found nonempty =>
      cases scanned
      refine ⟨⟨fun none => ?_, fun c member => List.mem_takeWhile_imp member⟩,
        List.takeWhile_append_dropWhile.symm, fun c first => ?_⟩
      · exact nonempty (text.dropWhile Char.isDigit) (by rw [none])
      · have := List.head?_dropWhile_not Char.isDigit text
        simpa [first] using this
  · rintro ⟨⟨nonempty, digits⟩, rfl, stops⟩
    have front : (ds ++ rest).takeWhile Char.isDigit = ds := by
      rw [List.takeWhile_append_of_pos digits]
      cases rest with
      | nil => simp
      | cons c rest => simp [stops c rfl]
    have back : (ds ++ rest).dropWhile Char.isDigit = rest := by
      rw [List.dropWhile_append_of_pos digits]
      cases rest with
      | nil => rfl
      | cons c rest => simp [stops c rfl]
    rw [front, back]
    cases ds with
    | nil => exact absurd rfl nonempty
    | cons c ds => rfl

theorem scanWhole_eq_some_iff :
    scanWhole text = some (ds, rest) ↔ Whole ds ∧ text = ds ++ rest ∧ NoDigit rest := by
  constructor
  · intro scanned
    unfold scanWhole at scanned
    split at scanned
    · cases scanned
    · next lone =>
      obtain ⟨digits, same, stops⟩ := scanDigits_eq_some_iff.1 scanned
      refine ⟨⟨digits, fun zero => ?_⟩, same, stops⟩
      cases ds with
      | nil => cases zero
      | cons c others =>
        cases zero
        cases others with
        | nil => rfl
        | cons d others => exact absurd scanned (lone d others rest)
  · rintro ⟨⟨digits, lone⟩, same, stops⟩
    rw [scanWhole, scanDigits_eq_some_iff.2 ⟨digits, same, stops⟩]
    split
    · next found =>
      cases found
      cases lone rfl
    · rfl

theorem fraction_of_scanFraction (scanned : scanFraction text = some (ds, rest)) :
    ∃ front, Fraction front ds ∧ text = front ++ rest := by
  unfold scanFraction at scanned
  split at scanned
  · obtain ⟨digits, rfl, -⟩ := scanDigits_eq_some_iff.1 scanned
    exact ⟨_, .digits digits, rfl⟩
  · cases scanned
    exact ⟨[], .none, rfl⟩

theorem scanFraction_append (fractional : Fraction front ds) (stops : NoDigit rest)
    (point : rest.head? ≠ some '.') : scanFraction (front ++ rest) = some (ds, rest) := by
  cases fractional with
  | none =>
    rw [List.nil_append]
    unfold scanFraction
    split
    · exact absurd rfl point
    · rfl
  | digits some => exact scanDigits_eq_some_iff.2 ⟨some, rfl, stops⟩

theorem exponent_of_scanExponent {exponent : Option (Bool × List Char)}
    (scanned : scanExponent text = some (exponent, rest)) :
    ∃ front, Exponent front exponent ∧ text = front ++ rest := by
  unfold scanExponent at scanned
  split at scanned
  · next mark others =>
    split at scanned
    · next marks =>
      split at scanned
      next negative behind sign =>
        obtain ⟨⟨ds, last⟩, found, same⟩ := Option.map_eq_some_iff.1 scanned
        cases same
        obtain ⟨digits, rfl, -⟩ := scanDigits_eq_some_iff.1 found
        split at sign
        · cases sign
          exact ⟨_, .minus marks digits, rfl⟩
        · cases sign
          exact ⟨_, .plus marks digits, rfl⟩
        · cases sign
          exact ⟨_, .plain marks digits, rfl⟩
    · cases scanned
      exact ⟨[], .none, rfl⟩
  · cases scanned
    exact ⟨[], .none, rfl⟩

theorem scanExponent_append {exponent : Option (Bool × List Char)}
    (scaled : Exponent front exponent) (stops : Stops rest) :
    scanExponent (front ++ rest) = some (exponent, rest) := by
  have noDigit := stops.noDigit
  cases scaled with
  | none =>
    cases rest with
    | nil => rfl
    | cons c rest =>
      obtain ⟨-, -, small, large⟩ := stops_cons.1 stops
      simp [scanExponent, small, large]
  | @plain mark ds marks digits =>
    have found := scanDigits_eq_some_iff.2 ⟨digits, rfl, noDigit⟩
    obtain ⟨c, others, rfl, digit⟩ := digits.head
    have unsigned (sign : Char) (other : sign.isDigit = false) (behind : List Char) :
        c :: others ++ rest ≠ sign :: behind := by
      rintro same
      cases same
      exact absurd digit (by simp [other])
    rw [List.cons_append, scanExponent, if_pos marks]
    · rw [found, Option.map_some]
    · exact unsigned '-' rfl
    · exact unsigned '+' rfl
  | plus marks digits | minus marks digits =>
    have found := scanDigits_eq_some_iff.2 ⟨digits, rfl, noDigit⟩
    simp only [List.cons_append, scanExponent, if_pos marks, found, Option.map_some]

/-- Neither the digits in front nor the fraction go on with an exponent. -/
theorem stops_of_exponent {exponent : Option (Bool × List Char)} (scaled : Exponent front exponent)
    (stops : Stops rest) : NoDigit (front ++ rest) ∧ (front ++ rest).head? ≠ some '.' := by
  cases scaled with
  | none => exact ⟨stops.noDigit, fun point => (stops '.' point).2.1 rfl⟩
  | plain marks digits | plus marks digits | minus marks digits =>
    rcases marks with rfl | rfl <;> simp [NoDigit]

theorem noDigit_of_fraction (fractional : Fraction front ds) (noDigit : NoDigit rest) :
    NoDigit (front ++ rest) := by
  cases fractional with
  | none => exact noDigit
  | digits digits =>
    intro c first
    cases first
    rfl

/-- The parts behind the sign. -/
def scanParts (negative : Bool) (text : List Char) : Option (Literal × List Char) := do
  let (whole, text) ← scanWhole text
  let (fraction, text) ← scanFraction text
  let (exponent, text) ← scanExponent text
  some (⟨negative, whole, fraction, exponent⟩, text)

theorem scan_minus (text : List Char) : scan ('-' :: text) = scanParts true text := rfl

theorem scan_unsigned (unsigned : text.head? ≠ some '-') : scan text = scanParts false text := by
  unfold scan
  split
  next negative behind sign =>
    split at sign
    · exact absurd rfl unsigned
    · cases sign
      rfl

theorem parts_of_scanParts {negative : Bool} (scanned : scanParts negative text = some (l, rest)) :
    ∃ whole front fraction back exponent, Whole whole ∧ Fraction front fraction ∧
      Exponent back exponent ∧ l = ⟨negative, whole, fraction, exponent⟩ ∧
      text = whole ++ front ++ back ++ rest := by
  simp only [scanParts, Option.bind_eq_bind, Option.bind_eq_some_iff] at scanned
  obtain ⟨⟨whole, _⟩, first, ⟨fraction, _⟩, second, ⟨exponent, _⟩, third, same⟩ := scanned
  cases same
  obtain ⟨digits, rfl, -⟩ := scanWhole_eq_some_iff.1 first
  obtain ⟨front, fractional, rfl⟩ := fraction_of_scanFraction second
  obtain ⟨back, scaled, rfl⟩ := exponent_of_scanExponent third
  exact ⟨whole, front, fraction, back, exponent, digits, fractional, scaled, rfl, by simp⟩

theorem scanParts_append {whole front fraction back : List Char}
    {exponent : Option (Bool × List Char)} (digits : Whole whole)
    (fractional : Fraction front fraction) (scaled : Exponent back exponent) (stops : Stops rest)
    (negative : Bool) :
    scanParts negative (whole ++ front ++ back ++ rest) =
      some (⟨negative, whole, fraction, exponent⟩, rest) := by
  obtain ⟨noDigit, point⟩ := stops_of_exponent scaled stops
  have first := scanWhole_eq_some_iff.2 ⟨digits, rfl, noDigit_of_fraction fractional noDigit⟩
  have second := scanFraction_append fractional noDigit point
  have third := scanExponent_append scaled stops
  simp only [scanParts, List.append_assoc, first, second, third, Option.bind_eq_bind,
    Option.bind_some]

/-- What is scanned stands in front of what is left. -/
theorem spells_of_scan (scanned : scan text = some (l, rest)) :
    ∃ front, Spells front l ∧ text = front ++ rest := by
  by_cases signed : text.head? = some '-'
  · obtain ⟨behind, rfl⟩ := List.head?_eq_some_iff.1 signed
    rw [scan_minus] at scanned
    obtain ⟨_, _, _, _, _, digits, fractional, scaled, rfl, rfl⟩ := parts_of_scanParts scanned
    exact ⟨_, .negative digits fractional scaled, rfl⟩
  · rw [scan_unsigned signed] at scanned
    obtain ⟨_, _, _, _, _, digits, fractional, scaled, rfl, rfl⟩ := parts_of_scanParts scanned
    exact ⟨_, .positive digits fractional scaled, rfl⟩

/-- A literal begins with a minus or a digit. -/
theorem Spells.head (spelled : Spells front l) :
    ∃ c others, front = c :: others ∧ (c = '-' ∧ l.negative ∨ c.isDigit ∧ l.negative = false) := by
  cases spelled with
  | positive digits fractional scaled =>
    obtain ⟨c, others, rfl, digit⟩ := digits.1.head
    exact ⟨c, _, rfl, .inr ⟨digit, rfl⟩⟩
  | negative digits fractional scaled => exact ⟨'-', _, rfl, .inl ⟨rfl, rfl⟩⟩

/-- A literal is scanned in front of what does not go on with it. -/
theorem scan_append (spelled : Spells front l) (stops : Stops rest) :
    scan (front ++ rest) = some (l, rest) := by
  cases spelled with
  | positive digits fractional scaled =>
    rw [scan_unsigned]
    · exact scanParts_append digits fractional scaled stops false
    · obtain ⟨c, others, rfl, digit⟩ := digits.1.head
      intro minus
      cases minus
      cases digit
  | negative digits fractional scaled =>
    rw [List.cons_append, scan_minus]
    exact scanParts_append digits fractional scaled stops true

/-! ## Integers -/

/-- The number that the digits in front are, its sign aside. -/
def magnitude (l : Literal) : Nat := Nat.ofDigitChars 10 l.whole 0

theorem le_ofDigitChars (ds : List Char) (n : Nat) : n ≤ Nat.ofDigitChars 10 ds n := by
  induction ds generalizing n with
  | nil => simp
  | cons c ds ih =>
    rw [Nat.ofDigitChars_cons]
    have := ih (10 * n + (c.toNat - '0'.toNat))
    omega

/-- Digits go into the significand as long as it fits 64 bits. -/
theorem extend_of_fits {n : Nat} (fits : Nat.ofDigitChars 10 ds n < 0x10000000000000000) :
    extend n ds = (Nat.ofDigitChars 10 ds n, []) := by
  induction ds generalizing n with
  | nil => simp [extend]
  | cons c ds ih =>
    rw [Nat.ofDigitChars_cons] at fits ⊢
    have next : n * 10 + digit c = 10 * n + (c.toNat - '0'.toNat) := by
      rw [digit, Nat.mul_comm]
    have least := le_ofDigitChars ds (10 * n + (c.toNat - '0'.toNat))
    rw [extend, next]
    rw [if_pos (by omega), ih fits]

theorem extend_of_not_fits {n : Nat} (small : n < 0x10000000000000000)
    (large : 0x10000000000000000 ≤ Nat.ofDigitChars 10 ds n) : (extend n ds).2 ≠ [] := by
  induction ds generalizing n with
  | nil =>
    rw [Nat.ofDigitChars_nil] at large
    omega
  | cons c ds ih =>
    rw [Nat.ofDigitChars_cons] at large
    have next : n * 10 + digit c = 10 * n + (c.toNat - '0'.toNat) := by
      rw [digit, Nat.mul_comm]
    rw [extend, next]
    split
    · next small => exact ih small large
    · nofun

/-- A literal without fraction and exponent. -/
def IsInteger (l : Literal) : Prop := l.fraction = [] ∧ l.exponent = none

theorem number?_of_fits (integer : l.IsInteger) (fits : l.magnitude < 0x10000000000000000) :
    l.number? = some (
      if !l.negative then .natural l.magnitude
      else if 0 < l.magnitude ∧ l.magnitude ≤ 0x8000000000000000 then
        .negative (Int64.ofInt (-(l.magnitude : Int)))
      else .float (Binary64.ofNat l.magnitude).neg) := by
  obtain ⟨fraction, exponent⟩ := integer
  have whole := extend_of_fits fits
  rw [number?, fraction, exponent, whole]
  simp only [List.isEmpty_nil, Option.isNone_none, Bool.and_self, if_true]
  rw [← magnitude]
  split
  · rfl
  · split <;> rfl

/-- Any other literal stands for a float, if for any number. -/
theorem number?_of_not_fits (other : ¬ (l.IsInteger ∧ l.magnitude < 0x10000000000000000)) :
    l.number? = l.float?.map .float := by
  unfold number?
  split
  · next integer =>
    simp only [Bool.and_eq_true, List.isEmpty_iff, Option.isNone_iff_eq_none] at integer
    have large : 0x10000000000000000 ≤ l.magnitude :=
      Nat.le_of_not_lt fun fits => other ⟨integer, fits⟩
    split
    · next n whole =>
      exact absurd (congrArg Prod.snd whole) (extend_of_not_fits (by decide) large)
    · rfl
  · rfl

theorem number?_natural_iff {n : Nat} :
    l.number? = some (.natural n) ↔
      l.IsInteger ∧ l.negative = false ∧ l.magnitude = n ∧ n < 0x10000000000000000 := by
  by_cases fits : l.IsInteger ∧ l.magnitude < 0x10000000000000000
  · obtain ⟨integer, fits⟩ := fits
    rw [number?_of_fits integer fits]
    cases l.negative with
    | false =>
      simp only [Bool.not_false, if_true, Option.some.injEq, Number.natural.injEq, integer, true_and]
      exact ⟨fun same => ⟨same, same ▸ fits⟩, And.left⟩
    | true =>
      simp only [Bool.not_true, Bool.false_eq_true, if_false]
      split <;> simp
  · rw [number?_of_not_fits fits]
    constructor
    · intro found
      cases h : l.float? <;> simp [h] at found
    · rintro ⟨integer, -, rfl, small⟩
      exact absurd ⟨integer, small⟩ fits

/-! ## The digits of an integer -/

theorem head_toDigits {n : Nat} (zero : (Nat.toDigits 10 n).head? = some '0') : n = 0 := by
  induction n using Nat.strongRecOn with
  | ind n ih =>
    rw [Nat.toDigits_eq_if (by decide)] at zero
    split at zero
    · simpa using zero
    · next large =>
      have nonempty : Nat.toDigits 10 (n / 10) ≠ [] := Nat.toDigits_ne_nil
      obtain ⟨c, others, front⟩ := List.exists_cons_of_ne_nil nonempty
      rw [front] at zero
      have := ih (n / 10) (by omega) (by rw [front]; exact zero)
      omega

theorem whole_toDigits (n : Nat) : Whole (Nat.toDigits 10 n) := by
  refine ⟨⟨Nat.toDigits_ne_nil, fun c member => ?_⟩, fun zero => ?_⟩
  · exact Nat.isDigit_of_mem_toDigits (by decide) (by decide) member
  · rw [head_toDigits zero]
    rfl

/-- The literal that an integer is written as. -/
def ofInt (i : Int) : Literal := ⟨decide (i < 0), Nat.toDigits 10 i.natAbs, [], none⟩

theorem spells_toString (i : Int) : Spells (toString i).toList (ofInt i) := by
  have digits := whole_toDigits i.natAbs
  rw [Int.toString_eq_repr, Int.repr_eq_if]
  split
  · next natural =>
    have spelled := Spells.positive digits .none .none
    have sign : decide (i < 0) = false := by simpa using natural
    have same : i.toNat = i.natAbs := by omega
    rw [ofInt, sign, Nat.repr_eq_ofList_toDigits, String.toList_ofList, same]
    simpa using spelled
  · next negative =>
    have spelled := Spells.negative digits .none .none
    have sign : decide (i < 0) = true := by simpa using negative
    have same : (-i).toNat = i.natAbs := by omega
    rw [ofInt, sign, Nat.repr_eq_ofList_toDigits, String.toList_append, String.toList_ofList, same]
    simpa using spelled

theorem number?_ofInt (i : Int64) :
    (ofInt i.toInt).number? =
      some (if 0 ≤ i.toInt then .natural i.toInt.toNat else .negative i) := by
  have lower := i.le_toInt
  have upper := i.toInt_lt
  have value : (ofInt i.toInt).magnitude = i.toInt.natAbs := Nat.ofDigitChars_ten_toDigits
  have fits : (ofInt i.toInt).magnitude < 0x10000000000000000 := by
    rw [value]
    omega
  rw [number?_of_fits ⟨rfl, rfl⟩ fits, value]
  by_cases natural : 0 ≤ i.toInt
  · have sign : (ofInt i.toInt).negative = false := by simpa [ofInt] using natural
    have same : i.toInt.natAbs = i.toInt.toNat := by omega
    rw [sign, if_pos natural, same]
    rfl
  · have sign : (ofInt i.toInt).negative = true := by simpa [ofInt] using natural
    have same : -(i.toInt.natAbs : Int) = i.toInt := by omega
    rw [sign, if_neg natural, same, Int64.ofInt_toInt]
    simp only [Bool.not_true, Bool.false_eq_true, if_false]
    rw [if_pos (by omega)]

end Patchbay.Json.Literal
