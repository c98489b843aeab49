import Mathlib.Algebra.Order.Group.Nat
import Patchbay.Bytes

/-!
# Bytes read back

A number of a fixed width and a text are found again in front of whatever bytes follow them.
-/

namespace Patchbay.Bytes

/-- What was put in front is split off again. -/
theorem split?_append {front : Bytes} {n : Nat} (width : front.length = n) (rest : Bytes) :
    split? n (front ++ rest) = some (front, rest) := by
  subst width
  simp [split?]

theorem split?_eq_some_iff {n : Nat} {bytes front rest : Bytes} :
    split? n bytes = some (front, rest) ↔ bytes = front ++ rest ∧ front.length = n := by
  constructor
  · intro split
    unfold split? at split
    dsimp only at split
    split at split
    · next width =>
      cases split
      exact ⟨(List.take_append_drop n bytes).symm, width⟩
    · cases split
  · rintro ⟨rfl, width⟩
    exact split?_append width rest

theorem split?_eq_none_iff {n : Nat} {bytes : Bytes} : split? n bytes = none ↔ bytes.length < n := by
  unfold split?
  dsimp only
  rw [List.length_take]
  split
  · next long =>
    have : n ≤ bytes.length := by omega
    simp [this]
  · next short =>
    have : bytes.length < n := by omega
    simp [this]

/-! ## Numbers -/

theorem toNat_toUInt8 {n : Nat} (small : n < 256) : n.toUInt8.toNat = n :=
  UInt8.toNat_ofNat_of_lt' small

@[simp]
theorem length_bigEndian (width n : Nat) : (bigEndian width n).length = width := by
  induction width with
  | zero => rfl
  | succ width ih => rw [bigEndian, List.length_cons, ih]

@[simp]
theorem length_littleEndian (width n : Nat) : (littleEndian width n).length = width := by
  induction width generalizing n with
  | zero => rfl
  | succ width ih => rw [littleEndian, List.length_cons, ih]

/-- Reading goes on from the number that was read before. -/
theorem foldl_bigEndian (width n before : Nat) :
    (bigEndian width n).foldl (fun n b => n * 256 + b.toNat) before =
      before * 256 ^ width + n % 256 ^ width := by
  induction width generalizing before with
  | zero => simp [bigEndian, Nat.mod_one]
  | succ width ih =>
    have top : (n / Nat.pow 256 width).toUInt8.toNat = n / 256 ^ width % 256 :=
      UInt8.toNat_ofNat'
    rw [bigEndian, List.foldl_cons, ih, top, Nat.mod_pow_succ, Nat.add_mul, Nat.mul_assoc,
      ← Nat.pow_succ', Nat.mul_comm (n / 256 ^ width % 256), Nat.add_assoc,
      Nat.add_comm (n % 256 ^ width)]

theorem ofBigEndian_bigEndian {width n : Nat} (small : n < 256 ^ width) :
    ofBigEndian (bigEndian width n) = n := by
  rw [ofBigEndian, foldl_bigEndian, Nat.zero_mul, Nat.zero_add, Nat.mod_eq_of_lt small]

theorem ofBigEndian_cons (b : UInt8) (rest : Bytes) :
    ofBigEndian (b :: rest) = b.toNat * 256 ^ rest.length + ofBigEndian rest := by
  suffices after : ∀ before, rest.foldl (fun n b => n * 256 + b.toNat) before =
      before * 256 ^ rest.length + ofBigEndian rest by
    simpa [ofBigEndian] using after b.toNat
  induction rest with
  | nil => simp [ofBigEndian]
  | cons c rest ih =>
    intro before
    have zero := ih c.toNat
    have later := ih (before * 256 + c.toNat)
    rw [ofBigEndian, List.foldl_cons, List.foldl_cons, Nat.zero_mul, Nat.zero_add, later, zero,
      List.length_cons, Nat.pow_succ, Nat.add_mul, Nat.mul_assoc, Nat.mul_comm 256, Nat.add_assoc]

theorem ofBigEndian_lt (bytes : Bytes) : ofBigEndian bytes < 256 ^ bytes.length := by
  induction bytes with
  | nil => simp [ofBigEndian]
  | cons b rest ih =>
    have byte : b.toNat + 1 ≤ 256 := b.toNat_lt
    rw [ofBigEndian_cons, List.length_cons, Nat.pow_succ']
    calc
      b.toNat * 256 ^ rest.length + ofBigEndian rest
        < b.toNat * 256 ^ rest.length + 256 ^ rest.length := Nat.add_lt_add_left ih _
      _ = (b.toNat + 1) * 256 ^ rest.length := by rw [Nat.add_mul, Nat.one_mul]
      _ ≤ 256 * 256 ^ rest.length := Nat.mul_le_mul_right _ byte

/-- What is above the field does not show in it. -/
theorem bigEndian_mul_add (width above n : Nat) :
    bigEndian width (above * 256 ^ width + n) = bigEndian width n := by
  induction width generalizing above with
  | zero => rfl
  | succ width ih =>
    have split : above * 256 ^ (width + 1) + n = above * 256 * 256 ^ width + n := by
      rw [Nat.pow_succ', Nat.mul_assoc]
    have top : (above * 256 * 256 ^ width + n) / Nat.pow 256 width =
        above * 256 + n / Nat.pow 256 width := by
      rw [Nat.add_comm, Nat.add_comm (above * 256)]
      exact Nat.add_mul_div_right n (above * 256) (Nat.pow_pos (by decide))
    have byte : (above * 256 + n / Nat.pow 256 width).toUInt8 = (n / Nat.pow 256 width).toUInt8 := by
      apply UInt8.toNat_inj.1
      simp [Nat.toUInt8, UInt8.toNat_ofNat']
    rw [bigEndian, split, top, byte, ih, bigEndian]

/-- Every byte string is the form of the number that is read from it. -/
theorem bigEndian_ofBigEndian (bytes : Bytes) :
    bigEndian bytes.length (ofBigEndian bytes) = bytes := by
  induction bytes with
  | nil => rfl
  | cons b rest ih =>
    have below := ofBigEndian_lt rest
    have top : (b.toNat * 256 ^ rest.length + ofBigEndian rest) / Nat.pow 256 rest.length =
        b.toNat := by
      rw [Nat.add_comm]
      refine (Nat.add_mul_div_right _ _ (Nat.pow_pos (by decide))).trans ?_
      rw [Nat.div_eq_of_lt below, Nat.zero_add]
    rw [ofBigEndian_cons, List.length_cons, bigEndian, top, bigEndian_mul_add, ih]
    congr 1
    exact UInt8.ofNat_toNat

theorem ofLittleEndian_littleEndian {width n : Nat} (small : n < 256 ^ width) :
    ofLittleEndian (littleEndian width n) = n := by
  induction width generalizing n with
  | zero =>
    have : n = 0 := by simpa using small
    rw [this]
    rfl
  | succ width ih =>
    have low : n.toUInt8.toNat = n % 256 := UInt8.toNat_ofNat'
    have high : n / 256 < 256 ^ width := by
      rw [Nat.pow_succ] at small
      exact Nat.div_lt_of_lt_mul (by omega)
    rw [littleEndian, ofLittleEndian, ih high, low]
    omega

theorem ofLittleEndian_lt (bytes : Bytes) : ofLittleEndian bytes < 256 ^ bytes.length := by
  induction bytes with
  | nil => simp [ofLittleEndian]
  | cons b rest ih =>
    have byte := b.toNat_lt
    rw [ofLittleEndian, List.length_cons, Nat.pow_succ]
    omega

/-- The low bytes of a number come first, and what is above them behind. -/
theorem littleEndian_append (bytes : Bytes) (width above : Nat) :
    littleEndian (bytes.length + width) (ofLittleEndian bytes + 256 ^ bytes.length * above) =
      bytes ++ littleEndian width above := by
  induction bytes with
  | nil => simp [ofLittleEndian]
  | cons b rest ih =>
    have byte := b.toNat_lt
    have number : ofLittleEndian (b :: rest) + 256 ^ (b :: rest).length * above =
        b.toNat + 256 * (ofLittleEndian rest + 256 ^ rest.length * above) := by
      rw [ofLittleEndian, List.length_cons, Nat.pow_succ', Nat.mul_assoc, Nat.mul_add, Nat.add_assoc]
    have width_succ : (b :: rest).length + width = rest.length + width + 1 := by
      rw [List.length_cons]
      omega
    rw [number, width_succ, littleEndian, List.cons_append, ← ih]
    generalize ofLittleEndian rest + 256 ^ rest.length * above = n
    have low : (b.toNat + 256 * n).toUInt8 = b := by
      apply UInt8.toNat_inj.1
      have value : (b.toNat + 256 * n).toUInt8.toNat = (b.toNat + 256 * n) % 256 :=
        UInt8.toNat_ofNat'
      omega
    have high : (b.toNat + 256 * n) / 256 = n := by omega
    rw [low, high]

/-- Every byte string is the form of the number that is read from it. -/
theorem littleEndian_ofLittleEndian (bytes : Bytes) :
    littleEndian bytes.length (ofLittleEndian bytes) = bytes := by
  simpa [littleEndian] using littleEndian_append bytes 0 0

/-! ## Texts -/

theorem text?_ofText (text : String) : text? (ofText text) = some text := by
  have same : (⟨(ofText text).toArray⟩ : ByteArray) = text.toByteArray := by
    simp [ofText]
  rw [text?, same, String.fromUTF8?, dif_pos text.isValidUTF8]
  rfl

theorem ofText_of_text? {bytes : Bytes} {text : String} (read : text? bytes = some text) :
    ofText text = bytes := by
  unfold text? String.fromUTF8? at read
  split at read
  · cases read
    simp [ofText, String.fromUTF8]
  · cases read

/-- A text is read from its UTF-8 form and from nothing else. -/
theorem text?_eq_some_iff {bytes : Bytes} {text : String} :
    text? bytes = some text ↔ bytes = ofText text :=
  ⟨fun read => (ofText_of_text? read).symm, fun same => same ▸ text?_ofText text⟩

theorem length_ofText_replicate (n : Nat) (c : Char) :
    (ofText (String.ofList (List.replicate n c))).length = n * c.utf8Size := by
  simp [ofText, List.utf8Encode, List.data_toByteArray, List.length_flatMap]

end Patchbay.Bytes
