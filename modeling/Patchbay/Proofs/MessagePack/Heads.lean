import Mathlib.Tactic.SplitIfs
import Patchbay.MessagePack
import Patchbay.Proofs.Bytes

/-!
# Heads read back

Every head that the format can hold is read back from its smallest form, in front of whatever bytes
follow it.
-/

namespace Patchbay.MessagePack.Head

/-- What the format can hold: integers of 64 bits, signed or not, and lengths of 32 bits. Binary
heads are read but not written. -/
def Fits : Head → Prop
  | .int i => -0x8000000000000000 ≤ i ∧ i < 0x10000000000000000
  | .text n | .array n | .map n => n < 0x100000000
  | .binary _ | .other => False
  | _ => True

/-- The heads that the writer writes. -/
def isWritten : Head → Bool
  | .binary _ | .other => false
  | _ => true

/-- A field is read back, whatever it is the field of. -/
theorem field?_append (width : Nat) {n : Nat} (small : n < 256 ^ width) (head : Nat → Head)
    (rest : Bytes) : field? width head (Bytes.bigEndian width n ++ rest) = some (head n, rest) := by
  simp only [field?, Bytes.split?_append (Bytes.length_bigEndian width n), Option.map_some,
    Bytes.ofBigEndian_bigEndian small]

/-- A form of one byte, other than that of a negative number. -/
theorem take?_marker {m : Nat} (small : m < 0xC0) (rest : Bytes) :
    take? ([m.toUInt8] ++ rest) =
      some (if m < 0x80 then .int m
        else if m < 0x90 then .map (m - 0x80)
        else if m < 0xA0 then .array (m - 0x90)
        else .text (m - 0xA0), rest) := by
  simp only [List.cons_append, List.nil_append, take?, Bytes.toNat_toUInt8 (by omega : m < 256)]
  split
  · rfl
  · split
    · rfl
    · split
      · rfl
      · rfl

/-- The field of a negative number counts down from its width. -/
theorem signed_down {width n : Nat} (small : 2 * n + 2 ≤ 256 ^ width) :
    signed width (256 ^ width - 1 - n) = Int.negSucc n := by
  change Int.bmod ((256 ^ width - 1 - n : Nat) : Int) (256 ^ width) = Int.negSucc n
  rw [Int.bmod_def, Int.emod_eq_of_lt (by omega) (by omega)]
  split <;> omega

/-! ## Numbers -/

theorem take?_putNat {n : Nat} (small : n < 0x10000000000000000) (rest : Bytes) :
    take? (putNat n ++ rest) = some (.int n, rest) := by
  rw [putNat]
  split
  · next fix => rw [take?_marker (by omega), if_pos fix]
  · split
    · exact field?_append 1 (by omega) (fun n => .int n) rest
    · split
      · exact field?_append 2 (by omega) (fun n => .int n) rest
      · split
        · exact field?_append 4 (by omega) (fun n => .int n) rest
        · exact field?_append 8 (by omega) (fun n => .int n) rest

theorem take?_putNegative {n : Nat} (small : n < 0x8000000000000000) (rest : Bytes) :
    take? (putNegative n ++ rest) = some (.int (.negSucc n), rest) := by
  -- The field of a form, once it is known to hold the number.
  have field (width : Nat) (room : 2 * n + 2 ≤ 256 ^ width) :
      field? width (fun k => .int (signed width k))
        (Bytes.bigEndian width (256 ^ width - 1 - n) ++ rest) = some (.int (.negSucc n), rest) := by
    rw [field?_append width (by omega), signed_down room]
  rw [putNegative]
  split
  · next fix =>
    have marker : (0xFF - n).toUInt8.toNat = 0xFF - n := Bytes.toNat_toUInt8 (by omega)
    have value : ((0xFF - n : Nat) : Int) - 0x100 = Int.negSucc n := by omega
    simp only [List.cons_append, List.nil_append, take?, marker]
    rw [if_neg (by omega), if_neg (by omega), if_neg (by omega), if_neg (by omega),
      if_pos (by omega), value]
  · split
    · exact field 1 (by omega)
    · split
      · exact field 2 (by omega)
      · split
        · exact field 4 (by omega)
        · exact field 8 (by omega)

theorem take?_putInt {i : Int} (fits : (Head.int i).Fits) (rest : Bytes) :
    take? (putInt i ++ rest) = some (.int i, rest) := by
  obtain ⟨lower, upper⟩ := fits
  cases i with
  | ofNat n => exact take?_putNat (Int.ofNat_lt.1 upper) rest
  | negSucc n => exact take?_putNegative (by omega) rest

/-! ## Lengths -/

theorem take?_putText {n : Nat} (fits : (Head.text n).Fits) (rest : Bytes) :
    take? ((Head.text n).put ++ rest) = some (.text n, rest) := by
  change n < 0x100000000 at fits
  simp only [put]
  split
  · rw [take?_marker (by omega), if_neg (by omega), if_neg (by omega), if_neg (by omega),
      Nat.add_sub_cancel_left]
  · split
    · exact field?_append 1 (by omega) .text rest
    · split
      · exact field?_append 2 (by omega) .text rest
      · exact field?_append 4 (by omega) .text rest

theorem take?_putArray {n : Nat} (fits : (Head.array n).Fits) (rest : Bytes) :
    take? ((Head.array n).put ++ rest) = some (.array n, rest) := by
  change n < 0x100000000 at fits
  simp only [put]
  split
  · rw [take?_marker (by omega), if_neg (by omega), if_neg (by omega), if_pos (by omega),
      Nat.add_sub_cancel_left]
  · split
    · exact field?_append 2 (by omega) .array rest
    · exact field?_append 4 (by omega) .array rest

theorem take?_putMap {n : Nat} (fits : (Head.map n).Fits) (rest : Bytes) :
    take? ((Head.map n).put ++ rest) = some (.map n, rest) := by
  change n < 0x100000000 at fits
  simp only [put]
  split
  · rw [take?_marker (by omega), if_neg (by omega), if_pos (by omega),
      Nat.add_sub_cancel_left]
  · split
    · exact field?_append 2 (by omega) .map rest
    · exact field?_append 4 (by omega) .map rest

/-! ## All heads -/

theorem take?_put {h : Head} (fits : h.Fits) (rest : Bytes) :
    take? (h.put ++ rest) = some (h, rest) := by
  cases h with
  | nil => rfl
  | bool b => cases b <;> rfl
  | int i => exact take?_putInt fits rest
  | float x =>
    have bits : x.bits.toNat < 256 ^ 8 := x.bits.toNat_lt
    have whole : x.bits.toNat.toUInt64 = x.bits := UInt64.ofNat_toNat
    refine (field?_append 8 bits (fun n => .float ⟨n.toUInt64⟩) rest).trans ?_
    rw [whole]
  | text n => exact take?_putText fits rest
  | array n => exact take?_putArray fits rest
  | map n => exact take?_putMap fits rest
  | binary n => exact fits.elim
  | other => exact fits.elim

/-! ## Sizes -/

theorem putNat_length (n : Nat) : 0 < (putNat n).length ∧ (putNat n).length ≤ 9 := by
  rw [putNat]
  split_ifs <;> simp

theorem putNegative_length (n : Nat) :
    0 < (putNegative n).length ∧ (putNegative n).length ≤ 9 := by
  rw [putNegative]
  split_ifs <;> simp

/-- No head takes more than nine bytes, and one that is written takes one, even if it does not fit.
-/
theorem put_length (h : Head) : h.put.length ≤ 9 ∧ (h.isWritten → 0 < h.put.length) := by
  cases h with
  | int i =>
    cases i with
    | ofNat n => exact ⟨(putNat_length n).2, fun _ => (putNat_length n).1⟩
    | negSucc n => exact ⟨(putNegative_length n).2, fun _ => (putNegative_length n).1⟩
  | text n => rw [put]; split_ifs <;> simp
  | array n => rw [put]; split_ifs <;> simp
  | map n => rw [put]; split_ifs <;> simp
  | nil | bool b | float x | binary n | other => simp [put, isWritten]

end Patchbay.MessagePack.Head
