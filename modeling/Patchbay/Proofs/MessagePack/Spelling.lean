import Mathlib.Algebra.Group.Int.Defs
import Patchbay.Proofs.MessagePack.Heads
import Patchbay.Proofs.SinglePrecision

/-!
# How heads are spelled

The forms of the format, each as the bytes that it is. An integer and a length may be spelled in
several widths, so one head has many spellings; no bytes spell two heads. A head is read from its
spellings, and from nothing else.
-/

namespace Patchbay.MessagePack.Head

/-- How a length is told: by the marker alone when it is less than `room`, or in a field of some bytes
behind one of the markers in `fields`. -/
structure LengthForm where
  base : Nat
  room : Nat
  fields : List (UInt8 × Nat)

def textForm : LengthForm := ⟨0xA0, 0x20, [(0xD9, 1), (0xDA, 2), (0xDB, 4)]⟩

def binaryForm : LengthForm := ⟨0, 0, [(0xC4, 1), (0xC5, 2), (0xC6, 4)]⟩

def arrayForm : LengthForm := ⟨0x90, 0x10, [(0xDC, 2), (0xDD, 4)]⟩

def mapForm : LengthForm := ⟨0x80, 0x10, [(0xDE, 2), (0xDF, 4)]⟩

inductive LengthForm.Tells (form : LengthForm) : Bytes → Nat → Prop where
  | marker {n : Nat} (small : n < form.room) : form.Tells [(form.base + n).toUInt8] n
  | field {marker : UInt8} {width n : Nat} (known : (marker, width) ∈ form.fields)
      (fits : n < 256 ^ width) : form.Tells (marker :: Bytes.bigEndian width n) n

/-- The bytes of an integer: one of few in its marker, an unsigned number in a field, or any number
in a field that holds it in two's complement. -/
inductive SpellsInt : Bytes → Int → Prop where
  | small {n : Nat} (few : n < 0x80) : SpellsInt [n.toUInt8] n
  | negative {n : Nat} (few : n < 0x20) : SpellsInt [(0xE0 + n).toUInt8] (n - 0x20)
  | unsigned {marker : UInt8} {width n : Nat}
      (known : (marker, width) ∈ [((0xCC : UInt8), 1), (0xCD, 2), (0xCE, 4), (0xCF, 8)])
      (fits : n < 256 ^ width) : SpellsInt (marker :: Bytes.bigEndian width n) n
  | signed {marker : UInt8} {width : Nat} {i : Int}
      (known : (marker, width) ∈ [((0xD0 : UInt8), 1), (0xD1, 2), (0xD2, 4), (0xD3, 8)])
      (lower : -(256 ^ width : Int) ≤ 2 * i) (upper : 2 * i < (256 ^ width : Int)) :
      SpellsInt (marker :: Bytes.bigEndian width (i % (256 ^ width : Int)).toNat) i

/-- Markers that announce nothing that a value could be: the unused one and those of extensions. -/
def foreign : List UInt8 := [0xC1, 0xC7, 0xC8, 0xC9, 0xD4, 0xD5, 0xD6, 0xD7, 0xD8]

/-- These bytes say this head. -/
inductive Spells : Bytes → Head → Prop where
  | nil : Spells [0xC0] .nil
  | false : Spells [0xC2] (.bool false)
  | true : Spells [0xC3] (.bool true)
  | int {bytes : Bytes} {i : Int} (spelled : SpellsInt bytes i) : Spells bytes (.int i)
  | single {bits : UInt32} {x : Binary64} (wide : Binary64.Widens bits x) :
      Spells (0xCA :: Bytes.bigEndian 4 bits.toNat) (.float x)
  | double (x : Binary64) : Spells (0xCB :: Bytes.bigEndian 8 x.bits.toNat) (.float x)
  | text {bytes : Bytes} {n : Nat} (told : textForm.Tells bytes n) : Spells bytes (.text n)
  | binary {bytes : Bytes} {n : Nat} (told : binaryForm.Tells bytes n) : Spells bytes (.binary n)
  | array {bytes : Bytes} {n : Nat} (told : arrayForm.Tells bytes n) : Spells bytes (.array n)
  | map {bytes : Bytes} {n : Nat} (told : mapForm.Tells bytes n) : Spells bytes (.map n)
  | other {marker : UInt8} (alien : marker ∈ foreign) : Spells [marker] .other

variable {bytes front rest : Bytes} {h : Head}

/-- A field is some number of its width, whatever bytes it is. -/
theorem field?_eq_some_iff {width : Nat} {head : Nat → Head} :
    field? width head bytes = some (h, rest) ↔
      ∃ n < 256 ^ width, bytes = Bytes.bigEndian width n ++ rest ∧ h = head n := by
  simp only [field?, Option.map_eq_some_iff, Prod.exists, Prod.mk.injEq]
  constructor
  · rintro ⟨field, others, split, rfl, rfl⟩
    obtain ⟨rfl, rfl⟩ := Bytes.split?_eq_some_iff.1 split
    exact ⟨_, Bytes.ofBigEndian_lt field, by rw [Bytes.bigEndian_ofBigEndian], rfl⟩
  · rintro ⟨n, small, rfl, rfl⟩
    exact ⟨_, _, Bytes.split?_append (Bytes.length_bigEndian width n) rest,
      by rw [Bytes.ofBigEndian_bigEndian small], rfl⟩

/-- A field in two's complement holds half of its numbers above zero and half below. -/
theorem signed_eq_iff {width n : Nat} {i : Int} (wide : 0 < width) (fits : n < 256 ^ width) :
    signed width n = i ↔
      (-(256 ^ width : Int) ≤ 2 * i ∧ 2 * i < (256 ^ width : Int)) ∧
        (i % (256 ^ width : Int)).toNat = n := by
  change Int.bmod (n : Int) (256 ^ width) = i ↔ _
  have even : 256 ^ width % 2 = 0 := by
    obtain ⟨lower, rfl⟩ := Nat.exists_eq_add_of_lt wide
    simp [Nat.pow_succ, Nat.mul_mod]
  have cast : (256 ^ width : Int) = ((256 ^ width : Nat) : Int) := by simp
  rw [cast]
  generalize 256 ^ width = size at fits even
  rw [Int.bmod_def, Int.emod_eq_of_lt (by omega) (by omega)]
  by_cases above : 0 ≤ i
  · by_cases inside : i < size
    · rw [Int.emod_eq_of_lt above inside]
      split <;> omega
    · split <;> omega
  · by_cases inside : -(size : Int) ≤ i
    · have around : i % (size : Int) = i + size := by
        rw [← Int.add_emod_right, Int.emod_eq_of_lt (by omega) (by omega)]
      rw [around]
      split <;> omega
    · split <;> omega

/-! ## Only spellings are read -/

/-- A byte that says a head by itself. -/
theorem spells_of_marker {marker : UInt8} (alone : marker.toNat < 0xC0 ∨ 0xE0 ≤ marker.toNat)
    (taken : take? (marker :: bytes) = some (h, rest)) : Spells [marker] h ∧ bytes = rest := by
  have byte := marker.toNat_lt
  have whole : marker.toNat.toUInt8 = marker := UInt8.ofNat_toNat
  have told (form : LengthForm) (least : form.base ≤ marker.toNat)
      (small : marker.toNat - form.base < form.room) :
      form.Tells [marker] (marker.toNat - form.base) := by
    have spelled := LengthForm.Tells.marker small
    rwa [Nat.add_sub_cancel' least, whole] at spelled
  simp only [take?] at taken
  split_ifs at taken with small map array text negative
  · cases taken
    have spelled := SpellsInt.small small
    rw [whole] at spelled
    exact ⟨.int spelled, rfl⟩
  · cases taken
    exact ⟨.map (told mapForm (by simp [mapForm]; omega) (by simp [mapForm]; omega)), rfl⟩
  · cases taken
    exact ⟨.array (told arrayForm (by simp [arrayForm]; omega) (by simp [arrayForm]; omega)), rfl⟩
  · cases taken
    exact ⟨.text (told textForm (by simp [textForm]; omega) (by simp [textForm]; omega)), rfl⟩
  · cases taken
    have spelled := SpellsInt.negative (n := marker.toNat - 0xE0) (by omega)
    have value : ((marker.toNat - 0xE0 : Nat) : Int) - 0x20 = marker.toNat - 0x100 := by omega
    rw [Nat.add_sub_cancel' negative, whole, value] at spelled
    exact ⟨.int spelled, rfl⟩
  · omega

/-- A marker with a field behind it, when it says a head with every field of that width. -/
theorem spells_of_field? {marker : UInt8} {width : Nat} {head : Nat → Head}
    (all : ∀ n < 256 ^ width, Spells (marker :: Bytes.bigEndian width n) (head n))
    (found : field? width head bytes = some (h, rest)) :
    ∃ field, Spells (marker :: field) h ∧ bytes = field ++ rest := by
  obtain ⟨n, fits, rfl, rfl⟩ := field?_eq_some_iff.1 found
  exact ⟨_, all n fits, rfl⟩

theorem spells_signed {marker : UInt8} {width n : Nat} (wide : 0 < width)
    (known : (marker, width) ∈ [((0xD0 : UInt8), 1), (0xD1, 2), (0xD2, 4), (0xD3, 8)])
    (fits : n < 256 ^ width) :
    Spells (marker :: Bytes.bigEndian width n) (.int (signed width n)) := by
  obtain ⟨⟨low, high⟩, number⟩ := (signed_eq_iff wide fits).1 rfl
  have spelled := SpellsInt.signed known low high
  rw [number] at spelled
  exact .int spelled

/-- A byte that says a head together with the bytes behind it, or none that a value has. -/
theorem spells_of_field {marker : UInt8} (lower : 0xC0 ≤ marker.toNat) (upper : marker.toNat < 0xE0)
    (taken : take? (marker :: bytes) = some (h, rest)) :
    ∃ field, Spells (marker :: field) h ∧ bytes = field ++ rest := by
  have alone (spelled : Spells [marker] h) (same : bytes = rest) :
      ∃ field, Spells (marker :: field) h ∧ bytes = field ++ rest := ⟨[], spelled, same⟩
  simp only [take?] at taken
  rw [if_neg (by omega), if_neg (by omega), if_neg (by omega), if_neg (by omega),
    if_neg (by omega)] at taken
  -- one case for each marker, with the number that the marker is
  split at taken
  case h_1 m number =>
    obtain rfl : marker = 0xC0 := UInt8.toNat_inj.1 number
    cases taken
    exact alone .nil rfl
  case h_2 m number =>
    obtain rfl : marker = 0xC2 := UInt8.toNat_inj.1 number
    cases taken
    exact alone .false rfl
  case h_3 m number =>
    obtain rfl : marker = 0xC3 := UInt8.toNat_inj.1 number
    cases taken
    exact alone .true rfl
  case h_4 m number | h_5 m number | h_6 m number =>
    refine spells_of_field? (fun n fits => .binary (.field ?_ fits)) taken
    simp [binaryForm, ← UInt8.toNat_inj, number]
  case h_7 m number =>
    obtain rfl : marker = 0xCA := UInt8.toNat_inj.1 number
    refine spells_of_field? (fun n fits => ?_) taken
    have spelled := Spells.single (Binary64.widens_ofBinary32 n.toUInt32)
    rwa [show n.toUInt32.toNat = n from UInt32.toNat_ofNat_of_lt' fits] at spelled
  case h_8 m number =>
    obtain rfl : marker = 0xCB := UInt8.toNat_inj.1 number
    refine spells_of_field? (fun n fits => ?_) taken
    have spelled := Spells.double ⟨n.toUInt64⟩
    rwa [show n.toUInt64.toNat = n from UInt64.toNat_ofNat_of_lt' fits] at spelled
  case h_9 m number | h_10 m number | h_11 m number | h_12 m number =>
    refine spells_of_field? (fun n fits => .int (.unsigned ?_ fits)) taken
    simp [← UInt8.toNat_inj, number]
  case h_13 m number | h_14 m number | h_15 m number | h_16 m number =>
    refine spells_of_field? (fun n fits => spells_signed (by decide) ?_ fits) taken
    simp [← UInt8.toNat_inj, number]
  case h_17 m number | h_18 m number | h_19 m number =>
    refine spells_of_field? (fun n fits => .text (.field ?_ fits)) taken
    simp [textForm, ← UInt8.toNat_inj, number]
  case h_20 m number | h_21 m number =>
    refine spells_of_field? (fun n fits => .array (.field ?_ fits)) taken
    simp [arrayForm, ← UInt8.toNat_inj, number]
  case h_22 m number | h_23 m number =>
    refine spells_of_field? (fun n fits => .map (.field ?_ fits)) taken
    simp [mapForm, ← UInt8.toNat_inj, number]
  case h_24 =>
    have alien : marker ∈ foreign := by
      simp only [foreign, List.mem_cons, List.not_mem_nil, or_false, ← UInt8.toNat_inj,
        UInt8.reduceToNat, imp_false] at *
      omega
    cases taken
    exact alone (.other alien) rfl

/-! ## All spellings are read -/

/-- A length is read from what tells it, when the markers of its form are read so. -/
theorem LengthForm.Tells.read {form : LengthForm} {n : Nat} (told : form.Tells front n)
    {head : Nat → Head}
    (alone : ∀ n < form.room, take? ((form.base + n).toUInt8 :: rest) = some (head n, rest))
    (field : ∀ entry ∈ form.fields, ∀ bytes, take? (entry.1 :: bytes) = field? entry.2 head bytes) :
    take? (front ++ rest) = some (head n, rest) := by
  cases told with
  | marker small => exact alone n small
  | field known fits => exact (field _ known _).trans (field?_append _ fits head rest)

theorem SpellsInt.read {i : Int} (spelled : SpellsInt front i) :
    take? (front ++ rest) = some (.int i, rest) := by
  cases spelled with
  | small few => rw [take?_marker (by omega), if_pos few]
  | @negative n few =>
    have marker : (0xE0 + n).toUInt8.toNat = 0xE0 + n := Bytes.toNat_toUInt8 (by omega)
    have value : ((0xE0 + n : Nat) : Int) - 0x100 = n - 0x20 := by omega
    simp only [List.cons_append, List.nil_append, take?, marker]
    rw [if_neg (by omega), if_neg (by omega), if_neg (by omega), if_neg (by omega),
      if_pos (by omega), value]
  | @unsigned marker width n known fits =>
    have field : ∀ entry ∈ [((0xCC : UInt8), 1), (0xCD, 2), (0xCE, 4), (0xCF, 8)], ∀ bytes,
        take? (entry.1 :: bytes) = field? entry.2 (fun n => .int n) bytes := by
      simp [take?]
    exact (field _ known _).trans (field?_append width fits (fun n => .int n) rest)
  | @signed marker width i known lower upper =>
    have field : ∀ entry ∈ [((0xD0 : UInt8), 1), (0xD1, 2), (0xD2, 4), (0xD3, 8)],
        0 < entry.2 ∧ ∀ bytes, take? (entry.1 :: bytes) =
          field? entry.2 (fun n => .int (Head.signed entry.2 n)) bytes := by
      simp [take?]
    obtain ⟨wide, read⟩ := field _ known
    have fits : (i % (256 ^ width : Int)).toNat < 256 ^ width := by
      have cast : (256 ^ width : Int) = ((256 ^ width : Nat) : Int) := by simp
      have size : 0 < 256 ^ width := Nat.pow_pos (by decide)
      rw [cast]
      generalize 256 ^ width = size at size
      have below := Int.emod_lt_of_pos i (Int.natCast_pos.2 size)
      omega
    have value : Head.signed width (i % (256 ^ width : Int)).toNat = i :=
      (signed_eq_iff wide fits).2 ⟨⟨lower, upper⟩, rfl⟩
    have taken := field?_append width fits (fun n => .int (Head.signed width n)) rest
    rw [value] at taken
    exact (read _).trans taken

theorem Spells.read (spelled : Spells front h) : take? (front ++ rest) = some (h, rest) := by
  cases spelled with
  | nil | false | true => rfl
  | int spelled => exact spelled.read
  | @single bits x wide =>
    have fits : bits.toNat < 256 ^ 4 := bits.toNat_lt
    rw [Binary64.widens_iff.1 wide]
    refine (field?_append 4 fits (fun n => .float (Binary64.ofBinary32 n.toUInt32)) rest).trans ?_
    rw [show bits.toNat.toUInt32 = bits from UInt32.ofNat_toNat]
  | double x => exact take?_put (h := .float x) trivial rest
  | text told =>
    refine told.read (fun n small => ?_) (by simp [textForm, take?])
    change n < 0x20 at small
    change take? ([(0xA0 + n).toUInt8] ++ rest) = _
    rw [take?_marker (by omega), if_neg (by omega), if_neg (by omega), if_neg (by omega),
      Nat.add_sub_cancel_left]
  | binary told =>
    exact told.read (fun n small => absurd small (Nat.not_lt_zero n)) (by simp [binaryForm, take?])
  | array told =>
    refine told.read (fun n small => ?_) (by simp [arrayForm, take?])
    change n < 0x10 at small
    change take? ([(0x90 + n).toUInt8] ++ rest) = _
    rw [take?_marker (by omega), if_neg (by omega), if_neg (by omega), if_pos (by omega),
      Nat.add_sub_cancel_left]
  | map told =>
    refine told.read (fun n small => ?_) (by simp [mapForm, take?])
    change n < 0x10 at small
    change take? ([(0x80 + n).toUInt8] ++ rest) = _
    rw [take?_marker (by omega), if_neg (by omega), if_pos (by omega),
      Nat.add_sub_cancel_left]
  | other alien =>
    have each : ∀ marker ∈ foreign, take? (marker :: rest) = some (.other, rest) := by
      simp [foreign, take?]
    exact each _ alien

theorem take?_eq_some_iff :
    take? bytes = some (h, rest) ↔ ∃ front, Spells front h ∧ bytes = front ++ rest := by
  constructor
  · intro taken
    cases bytes with
    | nil => cases taken
    | cons marker bytes =>
      by_cases lower : marker.toNat < 0xC0
      · obtain ⟨spelled, rfl⟩ := spells_of_marker (.inl lower) taken
        exact ⟨_, spelled, rfl⟩
      · by_cases upper : marker.toNat < 0xE0
        · obtain ⟨field, spelled, rfl⟩ := spells_of_field (Nat.le_of_not_lt lower) upper taken
          exact ⟨_, spelled, rfl⟩
        · obtain ⟨spelled, rfl⟩ := spells_of_marker (.inr (Nat.le_of_not_lt upper)) taken
          exact ⟨_, spelled, rfl⟩
  · rintro ⟨front, spelled, rfl⟩
    exact spelled.read

end Patchbay.MessagePack.Head
