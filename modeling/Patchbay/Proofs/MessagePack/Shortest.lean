import Patchbay.Proofs.MessagePack.Grammar
import Patchbay.Proofs.MessagePack.Writing

/-!
# The shortest document

A head has spellings of several widths, and the writer takes the narrowest that holds it. So no document
of a value without floats is shorter than the one that is written, and what was read never grows by being
written again. Floats are left out here: one of single precision is written in double precision, with
four bytes more.
-/

namespace Patchbay.MessagePack

/-! ## Heads -/

namespace Head

variable {front : Bytes} {n width : Nat} {h : Head}

theorem putNat_length_le (known : width ∈ [1, 2, 4, 8]) (fits : n < 256 ^ width) :
    (putNat n).length ≤ width + 1 := by
  simp only [List.mem_cons, List.not_mem_nil, or_false] at known
  unfold putNat
  rcases known with rfl | rfl | rfl | rfl <;> split_ifs <;>
    simp only [List.length_cons, List.length_nil, Bytes.length_bigEndian] <;> omega

theorem putNegative_length_le (known : width ∈ [1, 2, 4, 8]) (fits : 2 * n + 2 ≤ 256 ^ width) :
    (putNegative n).length ≤ width + 1 := by
  simp only [List.mem_cons, List.not_mem_nil, or_false] at known
  unfold putNegative
  rcases known with rfl | rfl | rfl | rfl <;> split_ifs <;>
    simp only [List.length_cons, List.length_nil, Bytes.length_bigEndian] <;> omega

/-- Where a field in two's complement holds an integer, what is written for it takes no more. -/
theorem putInt_length_le {i : Int} (known : width ∈ [1, 2, 4, 8])
    (lower : -(256 ^ width : Int) ≤ 2 * i) (upper : 2 * i < (256 ^ width : Int)) :
    (putInt i).length ≤ width + 1 := by
  have cast : (256 ^ width : Int) = ((256 ^ width : Nat) : Int) := by simp
  rw [cast] at lower upper
  cases i with
  | ofNat n =>
    rw [Int.ofNat_eq_natCast] at upper
    apply putNat_length_le known
    omega
  | negSucc n =>
    apply putNegative_length_le known
    omega

theorem SpellsInt.length_le {i : Int} (spelled : SpellsInt front i) :
    (putInt i).length ≤ front.length := by
  cases spelled with
  | @small n few =>
    change (putNat n).length ≤ 1
    unfold putNat
    rw [if_pos few]
    exact Nat.le_refl 1
  | @negative n few =>
    have number : ((n : Int) - 0x20) = Int.negSucc (0x1F - n) := by omega
    rw [number]
    change (putNegative (0x1F - n)).length ≤ 1
    unfold putNegative
    rw [if_pos (by omega)]
    exact Nat.le_refl 1
  | unsigned known fits =>
    rw [List.length_cons, Bytes.length_bigEndian]
    apply putNat_length_le _ fits
    exact List.mem_map_of_mem (f := Prod.snd) known
  | signed known lower upper =>
    rw [List.length_cons, Bytes.length_bigEndian]
    apply putInt_length_le _ lower upper
    exact List.mem_map_of_mem (f := Prod.snd) known

theorem putText_length_le (known : width ∈ [1, 2, 4]) (fits : n < 256 ^ width) :
    (Head.text n).put.length ≤ width + 1 := by
  simp only [List.mem_cons, List.not_mem_nil, or_false] at known
  dsimp only [put]
  rcases known with rfl | rfl | rfl <;> split_ifs <;>
    simp only [List.length_cons, List.length_nil, Bytes.length_bigEndian] <;> omega

theorem putArray_length_le (known : width ∈ [2, 4]) (fits : n < 256 ^ width) :
    (Head.array n).put.length ≤ width + 1 := by
  simp only [List.mem_cons, List.not_mem_nil, or_false] at known
  dsimp only [put]
  rcases known with rfl | rfl <;> split_ifs <;>
    simp only [List.length_cons, List.length_nil, Bytes.length_bigEndian] <;> omega

theorem putMap_length (n : Nat) : (Head.map n).put.length = (Head.array n).put.length := by
  dsimp only [put]
  split_ifs <;> rfl

/-- Bytes that tell a length are no fewer than those of the head that is written for it, a text where a
key is told as bytes. -/
theorem LengthForm.Tells.length_le {form : LengthForm} (told : form.Tells front n)
    (counted : (form, h) ∈
      [(textForm, .text n), (binaryForm, .text n), (arrayForm, .array n), (mapForm, .map n)]) :
    h.put.length ≤ front.length := by
  simp only [List.mem_cons, List.not_mem_nil, or_false, Prod.mk.injEq] at counted
  cases told with
  | marker small =>
    rcases counted with ⟨rfl, rfl⟩ | ⟨rfl, rfl⟩ | ⟨rfl, rfl⟩ | ⟨rfl, rfl⟩
    · exact (congrArg List.length (if_pos small)).le
    · exact absurd small (Nat.not_lt_zero n)
    · exact (congrArg List.length (if_pos small)).le
    · exact (congrArg List.length (if_pos small)).le
  | field known fits =>
    have wide := List.mem_map_of_mem (f := Prod.snd) known
    rw [List.length_cons, Bytes.length_bigEndian]
    rcases counted with ⟨rfl, rfl⟩ | ⟨rfl, rfl⟩ | ⟨rfl, rfl⟩ | ⟨rfl, rfl⟩
    · exact putText_length_le wide fits
    · exact putText_length_le wide fits
    · exact putArray_length_le wide fits
    · exact (putMap_length n).trans_le (putArray_length_le wide fits)

theorem Spells.length_le (spelled : Spells front h) (floatless : ∀ x, h ≠ .float x) :
    h.put.length ≤ front.length := by
  cases spelled with
  | nil | false | true => exact Nat.le_refl 1
  | int spelled => exact spelled.length_le
  | single wide | double x => exact absurd rfl (floatless _)
  | text told | array told | map told => exact told.length_le (by simp)
  | binary told | other alien => exact Nat.zero_le _

/-- A key that is spelled as bytes is written as a text, behind a head that is no longer. -/
theorem Spells.binary_length_le (spelled : Spells front (.binary n)) :
    (Head.text n).put.length ≤ front.length := by
  cases spelled with
  | binary told => exact told.length_le (by simp)

/-- The lengths that are told are those that four bytes hold. -/
theorem LengthForm.Tells.countable {form : LengthForm} (told : form.Tells front n)
    (room : form.room ≤ 2 ^ 32) (narrow : ∀ entry ∈ form.fields, entry.2 ≤ 4) :
    Value.Countable n := by
  cases told with
  | marker small => exact Nat.lt_of_lt_of_le small room
  | field known fits =>
    apply Nat.lt_of_lt_of_le fits
    exact Nat.pow_le_pow_right (by decide) (narrow _ known)

theorem Spells.countable (spelled : Spells front h)
    (long : h ∈ [Head.text n, Head.binary n, Head.array n, Head.map n]) : Value.Countable n := by
  simp only [List.mem_cons, List.not_mem_nil, or_false] at long
  rcases long with rfl | rfl | rfl | rfl
  all_goals
    cases spelled
    exact LengthForm.Tells.countable (by assumption) (by decide) (by decide)

end Head

/-! ## Values -/

theorem KeyForm.length_le {front : Bytes} {key : String} (form : KeyForm front key) :
    (encodeText key).length ≤ front.length := by
  unfold encodeText
  cases form with
  | text head =>
    rw [List.length_append, List.length_append]
    exact Nat.add_le_add_right (head.length_le nofun) _
  | binary head =>
    rw [List.length_append, List.length_append]
    exact Nat.add_le_add_right head.binary_length_le _

theorem KeyForm.countable {front : Bytes} {key : String} (form : KeyForm front key) :
    Value.Countable (Bytes.ofText key).length := by
  cases form with
  | text head | binary head => exact head.countable (by simp)

/-- Items are written in no more bytes than the parts that they stand in, when each of them is. -/
theorem encodeItems_length_le {parts : List Bytes} {items : List Value}
    (each : List.Forall₂ Document parts items)
    (inner : ∀ v ∈ items, ∀ part, Document part v → (encode v).length ≤ part.length) :
    (encodeItems items).length ≤ parts.flatten.length := by
  induction each with
  | nil => exact Nat.le_refl 0
  | @cons part v parts items document each ih =>
    rw [encodeItems_cons, List.flatten_cons, List.length_append, List.length_append]
    apply Nat.add_le_add
    · exact inner v List.mem_cons_self part document
    · exact ih fun w member => inner w (List.mem_cons_of_mem _ member)

theorem encodeEntries_length_le {parts : List Bytes} {entries : Fields}
    (each : List.Forall₂ EntryForm parts entries)
    (inner : ∀ entry ∈ entries, ∀ part, Document part entry.2 →
      (encode entry.2).length ≤ part.length) :
    (encodeEntries entries).length ≤ parts.flatten.length := by
  induction each with
  | nil => exact Nat.le_refl 0
  | @cons part entry parts entries form each ih =>
    cases form with
    | @entry front back key v keyed document =>
      rw [encodeEntries_cons, List.flatten_cons, List.length_append, List.length_append,
        List.length_append, List.length_append]
      apply Nat.add_le_add
      · apply Nat.add_le_add keyed.length_le
        exact inner (key, v) List.mem_cons_self back document
      · exact ih fun other member => inner other (List.mem_cons_of_mem _ member)

/-- No document of a value without floats is shorter than the one that is written. -/
theorem Document.length_le {bytes : Bytes} {v : Value} (document : Document bytes v)
    (floatless : v.FloatFree) : (encode v).length ≤ bytes.length := by
  induction v using Value.induct generalizing bytes with
  | null =>
    cases document with
    | null head =>
      rw [encode_null]
      exact head.length_le nofun
  | bool b =>
    cases document with
    | bool head =>
      rw [encode_bool]
      exact head.length_le nofun
  | int i =>
    cases document with
    | int head =>
      rw [encode_int]
      exact head.length_le nofun
  | float x => exact floatless.elim
  | string s =>
    cases document with
    | string head =>
      rw [encode_string]
      exact (KeyForm.text head).length_le
  | array items ih =>
    cases document with
    | array head each =>
      have inside := Value.floatFreeItems_iff.1 floatless
      rw [encode_array, List.length_append, List.length_append]
      apply Nat.add_le_add (head.length_le nofun)
      exact encodeItems_length_le each fun v member part document =>
        ih v member document (inside v member)
  | map entries ih =>
    cases document with
    | map head each =>
      have inside := Value.floatFreeEntries_iff.1 floatless
      rw [encode_map, List.length_append, List.length_append]
      apply Nat.add_le_add (head.length_le nofun)
      exact encodeEntries_length_le each fun entry member part document =>
        ih entry member document (inside entry member)

/-! ## Main result -/

theorem exists_part {α : Type} {Form : Bytes → α → Prop} {parts : List Bytes} {items : List α}
    (each : List.Forall₂ Form parts items) {a : α} (member : a ∈ items) : ∃ part, Form part a := by
  induction each with
  | nil => cases member
  | cons form each ih =>
    rcases List.mem_cons.1 member with rfl | later
    · exact ⟨_, form⟩
    · exact ih later

/-- What a document says is short enough to be written, since it told the lengths in four bytes. -/
theorem Document.short {bytes : Bytes} {v : Value} (document : Document bytes v) : v.Short := by
  induction v using Value.induct generalizing bytes with
  | null | bool b | int i | float x => trivial
  | string s =>
    cases document with
    | string head => exact head.countable (by simp)
  | array items ih =>
    cases document with
    | array head each =>
      refine ⟨head.countable (by simp), Value.shortItems_iff.2 fun v member => ?_⟩
      obtain ⟨part, document⟩ := exists_part each member
      exact ih v member document
  | map entries ih =>
    cases document with
    | map head each =>
      refine ⟨head.countable (by simp), Value.shortEntries_iff.2 fun entry member => ?_⟩
      obtain ⟨part, form⟩ := exists_part each member
      cases form with
      | entry keyed document => exact ⟨keyed.countable, ih _ member document⟩

/-- A value without floats that was read from some bytes is read from what is written for it, and that is
no longer. -/
theorem encode_shortest {bytes : Bytes} {v : Value} (decoded : decode bytes = .ok v)
    (floatless : v.FloatFree) :
    decode (encode v) = .ok v ∧ (encode v).length ≤ bytes.length := by
  obtain ⟨document, distinct, shallow⟩ := (decode_eq_ok_iff bytes v).1 decoded
  constructor
  · exact (value_round_trip distinct document.short).1 shallow
  · exact document.length_le floatless

/-- A map, its key in bytes, an array, a negative integer and a text, each behind the widest head that it
can have. -/
theorem encode_shortest_wide :
    let wide : Bytes := [0xDF, 0, 0, 0, 1, 0xC6, 0, 0, 0, 1, 0x6B, 0xDD, 0, 0, 0, 2,
      0xD3, 0xFF, 0xFF, 0xFF, 0xFF, 0xFF, 0xFF, 0xFF, 0xE0, 0xDB, 0, 0, 0, 0]
    let v : Value := .map [("k", .array [.int (-32), .string ""])]
    decode wide = .ok v ∧ decode (encode v) = .ok v ∧ (encode v).length ≤ wide.length := by
  intro wide v
  have key : Bytes.text? [0x6B] = some "k" := Bytes.text?_ofText "k"
  have item : Bytes.text? [] = some "" := Bytes.text?_ofText ""
  have decoded : decode wide = .ok v := by
    simp [wide, v, decode, depthLimit, readValue, readHead, readItems, readEntries, readKey, readText,
      readInt, Head.take?, Head.field?, Head.signed, Bytes.split?, Bytes.ofBigEndian, key, item]
  have floatless : v.FloatFree := by
    simp [v, Value.FloatFree, Value.FloatFreeEntries, Value.FloatFreeItems]
  exact ⟨decoded, encode_shortest decoded floatless⟩

end Patchbay.MessagePack
