import Mathlib.Algebra.Order.Group.Nat
import Patchbay.Binary64

/-!
# Single precision numbers in double precision

A single precision number is read off its 32 bits, and `Widens` says which double precision number
is the same: of the same sign, and either of the same value, or infinite, or a quiet NaN with the same
payload. There is one such number, and it is the one that is computed.
-/

namespace Patchbay.Binary64

/-! ## The parts of a number -/

theorem negative_iff (x : Binary64) : x.negative = true ↔ 2 ^ 63 ≤ x.bits.toNat := by
  have bound := x.bits.toNat_lt
  have shifted : (x.bits >>> 63).toNat = x.bits.toNat / 2 ^ 63 := by
    simp [UInt64.toNat_shiftRight, Nat.shiftRight_eq_div_pow]
  rw [negative, beq_iff_eq, ← UInt64.toNat_inj, shifted]
  simp only [UInt64.toNat_one]
  omega

theorem exponent_eq (x : Binary64) : x.exponent = x.bits.toNat / 2 ^ 52 % 2 ^ 11 := by
  have masked := Nat.and_two_pow_sub_one_eq_mod (x.bits.toNat / 2 ^ 52) 11
  simpa [exponent, Nat.shiftRight_eq_div_pow] using masked

theorem fraction_eq (x : Binary64) : x.fraction = x.bits.toNat % 2 ^ 52 := by
  have masked := Nat.and_two_pow_sub_one_eq_mod x.bits.toNat 52
  simpa [fraction] using masked

theorem fraction_lt (x : Binary64) : x.fraction < 2 ^ 52 := by
  rw [fraction_eq]
  exact Nat.mod_lt _ (by decide)

/-- A number is known by its parts. -/
theorem eq_of_parts {x y : Binary64} (sign : x.negative = y.negative)
    (exponent : x.exponent = y.exponent) (fraction : x.fraction = y.fraction) : x = y := by
  have left := x.negative_iff
  have right := y.negative_iff
  have small := x.bits.toNat_lt
  have also := y.bits.toNat_lt
  rw [sign] at left
  rw [exponent_eq, exponent_eq] at exponent
  rw [fraction_eq, fraction_eq] at fraction
  have same := left.symm.trans right
  cases x
  cases y
  congr 1
  apply UInt64.toNat_inj.1
  dsimp only at *
  omega

/-- A number put together of its parts. -/
theorem parts_of_bits (sign : Bool) {n : Nat} (small : n < 2 ^ 63) :
    negative ⟨n.toUInt64 ||| (zero sign).bits⟩ = sign ∧
      exponent ⟨n.toUInt64 ||| (zero sign).bits⟩ = n / 2 ^ 52 ∧
      fraction ⟨n.toUInt64 ||| (zero sign).bits⟩ = n % 2 ^ 52 := by
  have low : n.toUInt64.toNat = n := UInt64.toNat_ofNat_of_lt' (Nat.lt_trans small (by decide))
  have whole : (n.toUInt64 ||| (zero sign).bits).toNat = n + if sign then 2 ^ 63 else 0 := by
    cases sign with
    | false => simp [zero, low]
    | true =>
      have joined := Nat.two_pow_add_eq_or_of_lt small 1
      rw [UInt64.toNat_or, low, Nat.or_comm]
      simp only [zero, if_true]
      change 2 ^ 63 ||| n = _
      rw [← Nat.mul_one (2 ^ 63), ← joined]
      omega
  rw [exponent_eq, fraction_eq, whole]
  refine ⟨?_, ?_, ?_⟩
  · rw [Bool.eq_iff_iff, negative_iff, whole]
    cases sign with
    | false => simp; omega
    | true => simp
  · cases sign with
    | false => simp; omega
    | true => simp; omega
  · cases sign with
    | false => simp
    | true => simp; omega

/-- The magnitude of a number with these parts. -/
def scaled (exponent fraction : Nat) : Nat :=
  (if exponent = 0 then fraction else fraction + 2 ^ 52) * 2 ^ (exponent - 1)

theorem magnitude_eq (x : Binary64) : x.magnitude = scaled x.exponent x.fraction := rfl

theorem scaled_lt {e d f g : Nat} (below : f < 2 ^ 52) (less : e < d) :
    scaled e f < scaled d g := by
  unfold scaled
  rw [if_neg (by omega : d ≠ 0)]
  by_cases zero : e = 0
  · have power : 0 < 2 ^ (d - 1) := Nat.two_pow_pos _
    rw [if_pos zero, zero]
    calc
      f * 2 ^ (0 - 1) = f := Nat.mul_one f
      _ < g + 2 ^ 52 := by omega
      _ ≤ (g + 2 ^ 52) * 2 ^ (d - 1) := Nat.le_mul_of_pos_right _ power
  · have power : 2 ^ e ≤ 2 ^ (d - 1) := Nat.pow_le_pow_right (by decide) (by omega)
    have double : 2 ^ e = 2 * 2 ^ (e - 1) := by
      rw [← Nat.pow_succ']
      congr 1
      omega
    rw [if_neg zero]
    calc
      (f + 2 ^ 52) * 2 ^ (e - 1) < 2 ^ 53 * 2 ^ (e - 1) :=
        Nat.mul_lt_mul_of_pos_right (by omega) (Nat.two_pow_pos _)
      _ = 2 ^ 52 * 2 ^ e := by rw [double, ← Nat.mul_assoc]; rfl
      _ ≤ (g + 2 ^ 52) * 2 ^ (d - 1) := Nat.mul_le_mul (by omega) power

/-- Two numbers of one magnitude have the same parts but for the sign. -/
theorem parts_of_magnitude {x y : Binary64} (same : x.magnitude = y.magnitude) :
    x.exponent = y.exponent ∧ x.fraction = y.fraction := by
  rw [magnitude_eq, magnitude_eq] at same
  rcases Nat.lt_trichotomy x.exponent y.exponent with less | equal | more
  · exact absurd same (Nat.ne_of_lt (scaled_lt x.fraction_lt less))
  · refine ⟨equal, ?_⟩
    rw [equal] at same
    have power : 0 < 2 ^ (y.exponent - 1) := Nat.two_pow_pos _
    have significands := Nat.eq_of_mul_eq_mul_right power same
    split at significands <;> omega
  · exact absurd same.symm (Nat.ne_of_lt (scaled_lt y.fraction_lt more))

/-! ## Rounding what need not be rounded -/

theorem roundDiv_mul (q : Nat) {den : Nat} (some : 0 < den) : roundDiv (q * den) den = q := by
  simp [roundDiv, Nat.mul_div_cancel q some, some]

theorem log2_mul_pow {m : Nat} (some : m ≠ 0) (k : Nat) : (m * 2 ^ k).log2 = m.log2 + k := by
  have least : 2 ^ m.log2 ≤ m := Nat.log2_self_le some
  have most : m < 2 ^ (m.log2 + 1) := Nat.lt_log2_self
  have power : 0 < 2 ^ k := Nat.two_pow_pos k
  rw [Nat.log2_eq_iff (Nat.mul_ne_zero some power.ne')]
  constructor
  · rw [Nat.pow_add]
    exact Nat.mul_le_mul_right _ least
  · rw [Nat.add_right_comm, Nat.pow_add]
    exact Nat.mul_lt_mul_of_pos_right most power

theorem floorLog2_scaled {m : Nat} (some : m ≠ 0) (k d : Nat) :
    floorLog2 (m * 2 ^ k) (2 ^ d) = (m.log2 : Int) + k - d := by
  have least : 2 ^ (m.log2 + k) ≤ m * 2 ^ k := by
    rw [← log2_mul_pow some]
    exact Nat.log2_self_le (Nat.mul_ne_zero some (Nat.two_pow_pos k).ne')
  simp only [floorLog2, log2_mul_pow some, Nat.log2_two_pow]
  rw [if_pos]
  · omega
  · split
    · next above =>
      change 2 ^ d * 2 ^ _ ≤ _
      rw [← Nat.pow_add]
      exact le_trans (Nat.pow_le_pow_right (by decide) (by omega)) least
    · next below =>
      change 2 ^ d ≤ _ * 2 ^ _
      calc
        2 ^ d = 2 ^ (m.log2 + k) * 2 ^ (d - (m.log2 + k)) := by
          rw [← Nat.pow_add]
          congr 1
          omega
        _ ≤ m * 2 ^ k * 2 ^ (d - (m.log2 + k)) := Nat.mul_le_mul_right _ least
        _ = m * 2 ^ k * 2 ^ (-(((m.log2 + k : Nat) : Int) - d)).toNat := by
          congr 2
          omega

theorem significand_bounds {m : Nat} (some : m ≠ 0) (few : m < 2 ^ 53) :
    2 ^ 52 ≤ m * 2 ^ (52 - m.log2) ∧ m * 2 ^ (52 - m.log2) < 2 ^ 53 := by
  have top : m.log2 < 53 := (Nat.log2_lt some).2 few
  have least : 2 ^ m.log2 ≤ m := Nat.log2_self_le some
  have most : m < 2 ^ (m.log2 + 1) := Nat.lt_log2_self
  constructor
  · calc
      2 ^ 52 = 2 ^ m.log2 * 2 ^ (52 - m.log2) := by
        rw [← Nat.pow_add]
        congr 1
        omega
      _ ≤ m * 2 ^ (52 - m.log2) := Nat.mul_le_mul_right _ least
  · calc
      m * 2 ^ (52 - m.log2) < 2 ^ (m.log2 + 1) * 2 ^ (52 - m.log2) :=
        Nat.mul_lt_mul_of_pos_right most (Nat.two_pow_pos _)
      _ = 2 ^ 53 := by
        rw [← Nat.pow_add]
        congr 1
        omega

section Exact

variable (sign : Bool) {m k d : Nat} (few : m < 2 ^ 53) (least : d ≤ k + 1022)
  (most : m.log2 + k ≤ d + 1023)

include few least most

/-- A value of few bits that is neither too small nor too large is its own rounding. -/
theorem ofRatio_scaled (some : m ≠ 0) :
    ofRatio sign (m * 2 ^ k) (2 ^ d) =
      ⟨((m.log2 + k + 1022 - d) * 2 ^ 52 + m * 2 ^ (52 - m.log2)).toUInt64 |||
        (zero sign).bits⟩ := by
  have number : m * 2 ^ k ≠ 0 := Nat.mul_ne_zero some (Nat.two_pow_pos k).ne'
  have top : m.log2 < 53 := (Nat.log2_lt some).2 few
  have short : m * 2 ^ (52 - m.log2) < 2 ^ 53 := (significand_bounds some few).2
  have binade : (max ((m.log2 : Int) + k - d - 52) (-1074) + 1074).toNat =
      m.log2 + k + 1022 - d := by omega
  have significand : (if m.log2 + k + 1022 - d < 1074 then
      roundDiv (m * 2 ^ k * 2 ^ (1074 - (m.log2 + k + 1022 - d))) (2 ^ d)
      else roundDiv (m * 2 ^ k) (2 ^ d * 2 ^ (m.log2 + k + 1022 - d - 1074))) =
      m * 2 ^ (52 - m.log2) := by
    split
    · have factors : m * 2 ^ k * 2 ^ (1074 - (m.log2 + k + 1022 - d)) =
          m * 2 ^ (52 - m.log2) * 2 ^ d := by
        have powers : k + (1074 - (m.log2 + k + 1022 - d)) = 52 - m.log2 + d := by omega
        rw [Nat.mul_assoc m, Nat.mul_assoc m, ← Nat.pow_add 2 k, ← Nat.pow_add 2 (52 - m.log2),
          powers]
      rw [factors, roundDiv_mul _ (Nat.two_pow_pos d)]
    · have factors : m * 2 ^ k =
          m * 2 ^ (52 - m.log2) * (2 ^ d * 2 ^ (m.log2 + k + 1022 - d - 1074)) := by
        have powers : 52 - m.log2 + (d + (m.log2 + k + 1022 - d - 1074)) = k := by omega
        rw [Nat.mul_assoc m, ← Nat.pow_add 2 d, ← Nat.pow_add 2 (52 - m.log2), powers]
      rw [factors, roundDiv_mul]
      exact Nat.mul_pos (Nat.two_pow_pos d) (Nat.two_pow_pos _)
  unfold ofRatio
  rw [if_neg number, floorLog2_scaled some, binade]
  dsimp only [Nat.pow_eq]
  rw [significand, if_neg (by omega)]
  rfl

/-- Then its parts are known. -/
theorem parts_ofRatio :
    (ofRatio sign (m * 2 ^ k) (2 ^ d)).negative = sign ∧
      (ofRatio sign (m * 2 ^ k) (2 ^ d)).exponent < 2047 ∧
      (ofRatio sign (m * 2 ^ k) (2 ^ d)).magnitude * 2 ^ d = m * 2 ^ k * 2 ^ 1074 := by
  by_cases none : m = 0
  · subst none
    have zeros : ofRatio sign (0 * 2 ^ k) (2 ^ d) = ⟨(0).toUInt64 ||| (zero sign).bits⟩ := by
      simp [ofRatio, zero]
    obtain ⟨negative, exponent, fraction⟩ := parts_of_bits sign (n := 0) (by decide)
    rw [zeros, negative, exponent, magnitude_eq, exponent, fraction]
    refine ⟨rfl, by decide, ?_⟩
    rw [Nat.zero_mul, Nat.zero_mul]
    exact Nat.zero_mul _
  · have top : m.log2 < 53 := (Nat.log2_lt none).2 few
    obtain ⟨lower, upper⟩ := significand_bounds none few
    rw [ofRatio_scaled sign few least most none]
    generalize whole : m * 2 ^ (52 - m.log2) = significand at lower upper
    generalize place : m.log2 + k + 1022 - d = binade
    obtain ⟨negative, exponent, fraction⟩ := parts_of_bits sign
      (n := binade * 2 ^ 52 + significand) (by omega)
    have biased : (binade * 2 ^ 52 + significand) / 2 ^ 52 = binade + 1 := by omega
    have stored : (binade * 2 ^ 52 + significand) % 2 ^ 52 = significand - 2 ^ 52 := by omega
    rw [biased] at exponent
    rw [stored] at fraction
    rw [negative, exponent, magnitude_eq, exponent, fraction]
    refine ⟨rfl, by omega, ?_⟩
    rw [scaled, if_neg (by omega), Nat.sub_add_cancel lower, Nat.add_sub_cancel, ← whole]
    -- the exponents alone are compared: the powers are too large
    rw [Nat.mul_assoc m, Nat.mul_assoc m, Nat.mul_assoc m, ← Nat.pow_add 2 (52 - m.log2),
      ← Nat.pow_add 2 _ d, ← Nat.pow_add 2 k]
    have powers : 52 - m.log2 + binade + d = k + 1074 := by omega
    rw [powers]

end Exact

/-! ## Widening -/

/-- The parts of a single precision number. -/
def singleNegative (bits : UInt32) : Bool := decide (2 ^ 31 ≤ bits.toNat)

def singleExponent (bits : UInt32) : Nat := bits.toNat / 2 ^ 23 % 2 ^ 8

def singleFraction (bits : UInt32) : Nat := bits.toNat % 2 ^ 23

/-- The significand with its leading bit, so that a finite magnitude is this times
`2 ^ (singleExponent - 1) / 2 ^ 149`. -/
def singleSignificand (bits : UInt32) : Nat :=
  if singleExponent bits = 0 then singleFraction bits else singleFraction bits + 2 ^ 23

/-- The single precision number of these bits is `x`: both have the same sign, and the same value, if
the one is finite; if not, both are infinite or `x` is the quiet NaN with the payload of the other. -/
structure Widens (bits : UInt32) (x : Binary64) : Prop where
  sign : x.negative = singleNegative bits
  finite : singleExponent bits < 255 → x.exponent < 2047 ∧
    x.magnitude * 2 ^ 149 =
      singleSignificand bits * 2 ^ (singleExponent bits - 1) * 2 ^ 1074
  infinite : singleExponent bits = 255 → singleFraction bits = 0 →
    x.exponent = 2047 ∧ x.fraction = 0
  nan : singleExponent bits = 255 → singleFraction bits ≠ 0 →
    x.exponent = 2047 ∧ x.fraction = 2 ^ 51 ||| singleFraction bits * 2 ^ 29

theorem Widens.unique {bits : UInt32} {x y : Binary64} (first : Widens bits x)
    (second : Widens bits y) : x = y := by
  have parts : x.exponent = y.exponent ∧ x.fraction = y.fraction := by
    by_cases finite : singleExponent bits < 255
    · have same := (first.finite finite).2.trans (second.finite finite).2.symm
      exact parts_of_magnitude (Nat.eq_of_mul_eq_mul_right (Nat.two_pow_pos 149) same)
    · have full : singleExponent bits = 255 := by
        have : singleExponent bits < 2 ^ 8 := Nat.mod_lt _ (by decide)
        omega
      by_cases zero : singleFraction bits = 0
      · have left := first.infinite full zero
        have right := second.infinite full zero
        exact ⟨left.1.trans right.1.symm, left.2.trans right.2.symm⟩
      · have left := first.nan full zero
        have right := second.nan full zero
        exact ⟨left.1.trans right.1.symm, left.2.trans right.2.symm⟩
  exact eq_of_parts (first.sign.trans second.sign.symm) parts.1 parts.2

theorem ofBinary32_eq (bits : UInt32) :
    ofBinary32 bits =
      if singleExponent bits = 255 then
        if singleFraction bits = 0 then infinity (singleNegative bits)
        else ⟨(zero (singleNegative bits)).bits ||| 0x7FF8000000000000 |||
          (singleFraction bits * 2 ^ 29).toUInt64⟩
      else ofRatio (singleNegative bits)
        (singleSignificand bits * 2 ^ (singleExponent bits - 1)) (2 ^ 149) := by
  have negative : (bits >>> 31 == 1) = singleNegative bits := by
    have bound := bits.toNat_lt
    have shifted : (bits >>> 31).toNat = bits.toNat / 2 ^ 31 := by
      simp [UInt32.toNat_shiftRight, Nat.shiftRight_eq_div_pow]
    rw [Bool.eq_iff_iff, beq_iff_eq, ← UInt32.toNat_inj, shifted]
    simp only [UInt32.toNat_one, singleNegative, decide_eq_true_eq]
    omega
  have exponent : ((bits >>> 23) &&& 0xFF).toNat = singleExponent bits := by
    have masked := Nat.and_two_pow_sub_one_eq_mod (bits.toNat / 2 ^ 23) 8
    simpa [singleExponent, Nat.shiftRight_eq_div_pow] using masked
  have fraction : (bits &&& 0x7FFFFF).toNat = singleFraction bits := by
    have masked := Nat.and_two_pow_sub_one_eq_mod bits.toNat 23
    simpa [singleFraction] using masked
  unfold ofBinary32
  rw [negative, exponent, fraction]
  rfl

theorem parts_infinity (sign : Bool) :
    (infinity sign).negative = sign ∧ (infinity sign).exponent = 2047 ∧
      (infinity sign).fraction = 0 := by
  cases sign with
  | false => decide
  | true => decide

/-- A NaN is quiet when its leading payload bit is set. -/
theorem parts_quiet (sign : Bool) {payload : Nat} (fits : payload < 2 ^ 52) :
    negative ⟨(zero sign).bits ||| 0x7FF8000000000000 ||| payload.toUInt64⟩ = sign ∧
      exponent ⟨(zero sign).bits ||| 0x7FF8000000000000 ||| payload.toUInt64⟩ = 2047 ∧
      fraction ⟨(zero sign).bits ||| 0x7FF8000000000000 ||| payload.toUInt64⟩ =
        2 ^ 51 ||| payload := by
  have quiet : 2 ^ 51 ||| payload < 2 ^ 52 := Nat.or_lt_two_pow (by decide) fits
  have joined : (2 ^ 52 * 2047 + (2 ^ 51 ||| payload)).toUInt64 =
      0x7FF8000000000000 ||| payload.toUInt64 := by
    have low : payload.toUInt64.toNat = payload :=
      UInt64.toNat_ofNat_of_lt' (Nat.lt_trans fits (by decide))
    have full : (2 ^ 52 * 2047 + (2 ^ 51 ||| payload)).toUInt64.toNat =
        2 ^ 52 * 2047 + (2 ^ 51 ||| payload) := UInt64.toNat_ofNat_of_lt' (by
          change _ < 2 ^ 64
          omega)
    rw [← UInt64.toNat_inj, full, UInt64.toNat_or, low, Nat.two_pow_add_eq_or_of_lt quiet,
      ← Nat.or_assoc]
    rfl
  obtain ⟨negative, exponent, fraction⟩ := parts_of_bits sign
    (n := 2 ^ 52 * 2047 + (2 ^ 51 ||| payload)) (by omega)
  rw [UInt64.or_assoc, ← joined, UInt64.or_comm, negative, exponent, fraction]
  refine ⟨rfl, by omega, by omega⟩

theorem widens_ofBinary32 (bits : UInt32) : Widens bits (ofBinary32 bits) := by
  have stored : singleFraction bits < 2 ^ 23 := Nat.mod_lt _ (by decide)
  have range : singleExponent bits < 2 ^ 8 := Nat.mod_lt _ (by decide)
  rw [ofBinary32_eq]
  by_cases full : singleExponent bits = 255
  · by_cases plain : singleFraction bits = 0
    · obtain ⟨sign, exponent, fraction⟩ := parts_infinity (singleNegative bits)
      rw [if_pos full, if_pos plain]
      exact ⟨sign, fun finite => by omega, fun _ _ => ⟨exponent, fraction⟩,
        fun _ payload => absurd plain payload⟩
    · have fits : singleFraction bits * 2 ^ 29 < 2 ^ 52 := by omega
      obtain ⟨sign, exponent, fraction⟩ := parts_quiet (singleNegative bits) fits
      rw [if_pos full, if_neg plain]
      exact ⟨sign, fun finite => by omega, fun _ none => absurd none plain,
        fun _ _ => ⟨exponent, fraction⟩⟩
  · have few : singleSignificand bits < 2 ^ 24 := by
      unfold singleSignificand
      split <;> omega
    have top : (singleSignificand bits).log2 < 24 := by
      by_cases none : singleSignificand bits = 0
      · simp [none]
      · exact (Nat.log2_lt none).2 few
    obtain ⟨sign, finite, magnitude⟩ := parts_ofRatio (singleNegative bits)
      (m := singleSignificand bits) (k := singleExponent bits - 1) (d := 149)
      (by omega) (by omega) (by omega)
    rw [if_neg full]
    exact ⟨sign, fun _ => ⟨finite, magnitude⟩, fun other => absurd other full,
      fun other => absurd other full⟩

/-- The double precision number that is the same as a single precision one is computed. -/
theorem widens_iff {bits : UInt32} {x : Binary64} : Widens bits x ↔ x = ofBinary32 bits :=
  ⟨fun wide => wide.unique (widens_ofBinary32 bits), fun same => same ▸ widens_ofBinary32 bits⟩

end Patchbay.Binary64
