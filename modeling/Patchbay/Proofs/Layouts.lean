import Patchbay.Packet.Layout
import Patchbay.Proofs.MessagePack.Reading

/-!
# Packets read back

A packet has a layout exactly when its transaction id, headers and body fit their length fields.
Reading the layout gives the packet itself when it is valid and not nested too deep, and otherwise
says which of the two is amiss; the nesting is noticed first.
-/

namespace Patchbay

namespace Packet

/-! ## Layouts -/

/-- The sections of a packet fit their length fields. -/
structure Fits (p : Packet) : Prop where
  id : (Bytes.ofText p.tx).length ≤ 65535
  headers : (MessagePack.encode (.map p.headers)).length ≤ 4294967295
  body : (MessagePack.encode p.body).length ≤ 4294967295

/-- At most 1023 containers nest in the headers, which are one themselves, and in the body. -/
structure Shallow (p : Packet) : Prop where
  headers : (Value.map p.headers).depth ≤ 1023
  body : p.body.depth ≤ 1023

/-- No map in the packet holds a key twice. -/
structure KeysDistinct (p : Packet) : Prop where
  headers : (Value.map p.headers).KeysDistinct
  body : p.body.KeysDistinct

/-- The flags, and the sequence number they announce. -/
def sequenceBytes (sequence : Option UInt32) : Bytes :=
  match sequence with
  | some n => sequenceFlag :: Bytes.littleEndian 4 n.toNat
  | none => [0]

/-- A section after its length. -/
def announced (width : Nat) (bytes : Bytes) : Bytes :=
  Bytes.littleEndian width bytes.length ++ bytes

/-- All parts of a packet, one after the other. -/
def layout (p : Packet) : Bytes :=
  p.type.code :: (p.instruction.map Instruction.code).getD noInstruction ::
    (sequenceBytes p.sequence ++ (announced 2 (Bytes.ofText p.tx) ++
      (announced 4 (MessagePack.encode (.map p.headers)) ++
        announced 4 (MessagePack.encode p.body))))

theorem section?_ok (width : Nat) {bytes : Bytes} (fits : bytes.length ≤ 256 ^ width - 1)
    (what : String) : section? width what bytes = .ok (bytes.length, bytes) := by
  rw [section?]
  exact if_pos fits

theorem section?_error (width : Nat) {bytes : Bytes} (long : ¬ bytes.length ≤ 256 ^ width - 1)
    (what : String) : section? width what bytes =
      .error (.tooLarge what bytes.length (256 ^ width - 1)) := by
  rw [section?]
  exact if_neg long

theorem encode_of_fits {p : Packet} (fits : p.Fits) : p.encode = .ok p.layout := by
  simp only [encode, section?_ok 2 fits.id, section?_ok 4 fits.headers, section?_ok 4 fits.body,
    ok_bind, layout, announced, sequenceBytes, List.append_assoc, List.cons_append]
  rfl

/-- The first section that does not fit is reported. -/
theorem encode_of_not_fits {p : Packet} (long : ¬ p.Fits) :
    ∃ what size limit, p.encode = .error (.tooLarge what size limit) := by
  rw [encode]
  by_cases id : (Bytes.ofText p.tx).length ≤ 256 ^ 2 - 1
  · by_cases headers : (MessagePack.encode (.map p.headers)).length ≤ 256 ^ 4 - 1
    · have body : ¬ (MessagePack.encode p.body).length ≤ 256 ^ 4 - 1 := fun body =>
        long ⟨id, headers, body⟩
      simp only [section?_ok 2 id, section?_ok 4 headers, section?_error 4 body, ok_bind]
      exact ⟨_, _, _, rfl⟩
    · simp only [section?_ok 2 id, section?_error 4 headers, ok_bind]
      exact ⟨_, _, _, rfl⟩
  · rw [section?_error 2 id]
    exact ⟨_, _, _, rfl⟩

/-! ## Reading the parts -/

namespace Cursor

variable {offset : Nat}

theorem take_append (front : Bytes) {n : Nat} (width : front.length = n) (what : String)
    (rest : Bytes) :
    take ⟨offset, front ++ rest⟩ what n = .ok (front, ⟨offset + n, rest⟩) := by
  simp only [take, Bytes.split?_append width]

theorem number_append (width : Nat) {n : Nat} (small : n < 256 ^ width) (what : String)
    (rest : Bytes) :
    number ⟨offset, Bytes.littleEndian width n ++ rest⟩ what width =
      .ok (n, ⟨offset + width, rest⟩) := by
  rw [number, take_append _ (Bytes.length_littleEndian width n), ok_bind]
  simp only [Bytes.ofLittleEndian_littleEndian small]
  rfl

theorem number_byte (b : UInt8) (what : String) (rest : Bytes) :
    number ⟨offset, b :: rest⟩ what 1 = .ok (b.toNat, ⟨offset + 1, rest⟩) := by
  have front : take ⟨offset, b :: rest⟩ what 1 = .ok ([b], ⟨offset + 1, rest⟩) :=
    take_append [b] rfl what rest
  rw [number, front]
  rfl

theorem instruction_append (i : Option Instruction) (rest : Bytes) :
    instruction ⟨offset, (i.map Instruction.code).getD noInstruction :: rest⟩ =
      .ok (i, ⟨offset + 1, rest⟩) := by
  rw [instruction, number_byte, ok_bind]
  rcases i with _ | i
  · rfl
  · cases i <;> rfl

theorem sequence_append (n : Option UInt32) (rest : Bytes) :
    sequence ⟨offset, sequenceBytes n ++ rest⟩ =
      .ok (n, ⟨offset + (sequenceBytes n).length, rest⟩) := by
  cases n with
  | none =>
    rw [sequence, sequenceBytes, List.singleton_append, number_byte, ok_bind]
    rfl
  | some n =>
    have small : n.toNat < 256 ^ 4 := n.toNat_lt
    have whole : n.toNat.toUInt32 = n := UInt32.ofNat_toNat
    have flag : sequenceFlag.toNat.toUInt8 = sequenceFlag := rfl
    have announces : sequenceFlag ≠ 0 := by decide
    rw [sequence, sequenceBytes, List.cons_append, number_byte, ok_bind]
    simp only [flag, if_neg announces, ne_eq, not_true_eq_false, if_false,
      number_append 4 small, ok_bind, whole, List.length_cons, Bytes.length_littleEndian]
    rfl

theorem transactionId_append {tx : String} (fits : (Bytes.ofText tx).length ≤ 65535)
    (rest : Bytes) :
    transactionId ⟨offset, announced 2 (Bytes.ofText tx) ++ rest⟩ =
      .ok (tx, ⟨offset + 2 + (Bytes.ofText tx).length, rest⟩) := by
  rw [transactionId, announced, List.append_assoc, number_append 2 (by omega), ok_bind]
  simp only [take_append _ rfl, ok_bind, Bytes.text?_ofText]
  rfl

/-- The document of a section is read back, unless it nests too deep. -/
theorem document_append (offset : Nat) {v : Value} (distinct : v.KeysDistinct)
    (fits : (MessagePack.encode v).length ≤ 4294967295) (what : String) (rest : Bytes) :
    document ⟨offset, announced 4 (MessagePack.encode v) ++ rest⟩ what =
      if v.depth ≤ 1023 then .ok (v, ⟨offset + 4 + (MessagePack.encode v).length, rest⟩)
      else .error (.malformed (.document what .tooDeep)) := by
  have short : v.Short := MessagePack.short_of_encode_length (by omega)
  rw [document, announced, List.append_assoc, number_append 4 (by omega), ok_bind]
  simp only [take_append _ rfl, ok_bind, MessagePack.decode_encode distinct short,
    MessagePack.depthLimit]
  by_cases shallow : v.depth ≤ 1023
  · simp [shallow, pure, Except.pure]
  · simp [shallow]

theorem headers_append {fields : Fields} (distinct : (Value.map fields).KeysDistinct)
    (fits : (MessagePack.encode (.map fields)).length ≤ 4294967295) (rest : Bytes) :
    headers ⟨offset, announced 4 (MessagePack.encode (.map fields)) ++ rest⟩ =
      if (Value.map fields).depth ≤ 1023 then
        .ok (fields, ⟨offset + 4 + (MessagePack.encode (.map fields)).length, rest⟩)
      else .error (.malformed (.document "headers" .tooDeep)) := by
  rw [headers, document_append _ distinct fits]
  split <;> rfl

end Cursor

theorem ofCode_code (t : PacketType) : PacketType.ofCode t.code = .ok t := by
  cases t <;> rfl

/-! ## Reading a layout -/

variable {p : Packet}

/-- Headers that nest too deep are noticed, and after them such a body, before the packet is
checked.
-/
theorem decode_layout (fits : p.Fits) (distinct : p.KeysDistinct) :
    decode p.layout =
      if (Value.map p.headers).depth ≤ 1023 then
        if p.body.depth ≤ 1023 then p.validate.map fun _ => p
        else .error (.malformed (.document "body" .tooDeep))
      else .error (.malformed (.document "headers" .tooDeep)) := by
  rw [decode, layout]
  simp only [Cursor.number_byte, ok_bind, UInt8.ofNat_toNat, ofCode_code,
    Cursor.instruction_append, Cursor.sequence_append, Cursor.transactionId_append fits.id,
    Cursor.headers_append distinct.headers fits.headers]
  by_cases headers : (Value.map p.headers).depth ≤ 1023
  · rw [if_pos headers, if_pos headers, ok_bind]
    have body (k : Nat) := Cursor.document_append k distinct.body fits.body "body" []
    simp only [List.append_nil] at body
    simp only [body]
    by_cases shallow : p.body.depth ≤ 1023
    · simp only [if_pos shallow, ok_bind]
      cases p.validate <;> rfl
    · rw [if_neg shallow, if_neg shallow, error_bind]
  · rw [if_neg headers, if_neg headers, error_bind]

/-! ## Main result -/

/-- Writing a packet fails only when it does not fit. What was written is read as the packet itself,
as the reason why it is not valid, or as malformed when it nests too deep. -/
theorem packet_round_trip (distinct : p.KeysDistinct) :
    (¬ p.Fits → ∃ what size limit, p.encode = .error (.tooLarge what size limit)) ∧
    (p.Fits → ∃ bytes, p.encode = .ok bytes ∧
      (p.Shallow → p.validate = .ok () → decode bytes = .ok p) ∧
      (p.Shallow → ∀ v, p.validate = .error v → decode bytes = .error v) ∧
      (¬ p.Shallow → ∃ cause, decode bytes = .error (.malformed cause))) := by
  refine ⟨encode_of_not_fits, fun fits => ⟨p.layout, encode_of_fits fits, ?_, ?_, ?_⟩⟩
  · intro shallow valid
    rw [decode_layout fits distinct, if_pos shallow.headers, if_pos shallow.body, valid]
    rfl
  · intro shallow v invalid
    rw [decode_layout fits distinct, if_pos shallow.headers, if_pos shallow.body, invalid]
    rfl
  · intro deep
    rw [decode_layout fits distinct]
    split
    · next headers =>
      have body : ¬ p.body.depth ≤ 1023 := fun body => deep ⟨headers, body⟩
      rw [if_neg body]
      exact ⟨_, rfl⟩
    · exact ⟨_, rfl⟩

/-- An execute comes back as it was, a numbered cancel as the reason why there is no such packet. -/
theorem packet_round_trip_execute_and_cancel :
    (∃ bytes, (execute "t" (.method "c" "m") (.int 5)).encode = .ok bytes ∧
      decode bytes = .ok (execute "t" (.method "c" "m") (.int 5))) ∧
    (∃ bytes, { cancel "t" with sequence := some 7 }.encode = .ok bytes ∧
      decode bytes = .error (.malformed (.unexpectedSequence "cancel"))) := by
  constructor
  · have distinct : (execute "t" (.method "c" "m") (.int 5)).KeysDistinct := by
      constructor <;> simp [execute, routed, Target.writeHeaders, Fields.set, Header.component,
        Header.method, Value.KeysDistinct, Value.KeysDistinctEntries]
    obtain ⟨bytes, written, valid, -⟩ :=
      (packet_round_trip distinct).2 ⟨by decide, by decide, by decide⟩
    exact ⟨bytes, written, valid ⟨by decide, by decide⟩ rfl⟩
  · have distinct : { cancel "t" with sequence := some 7 }.KeysDistinct := by
      constructor <;> simp [cancel, bare, Value.KeysDistinct, Value.KeysDistinctEntries]
    obtain ⟨bytes, written, -, invalid, -⟩ :=
      (packet_round_trip distinct).2 ⟨by decide, by decide, by decide⟩
    exact ⟨bytes, written, invalid ⟨by decide, by decide⟩ _ rfl⟩

end Packet

end Patchbay
