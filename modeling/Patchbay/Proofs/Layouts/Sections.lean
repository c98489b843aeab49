import Patchbay.Proofs.Layouts
import Patchbay.Proofs.Frames.Decoding

/-!
# One spelling outside the documents

Bytes that are read as a packet are a front, which type, instruction, flags, sequence number and
transaction id leave no choice about, and two sections behind their lengths. The sections are
documents, and a document can spell a value in several ways. That is the only freedom: the bytes are
the layout of their packet exactly when both sections are spelled as the writer spells them.
-/

namespace Patchbay

/-- A document that is spelled as the writer spells its value. -/
def MessagePack.Canonical (document : Bytes) : Prop :=
  ∀ v, MessagePack.decode document = .ok v → document = MessagePack.encode v

namespace Packet

/-- What stands before the length of the headers. -/
def front (p : Packet) : Bytes :=
  p.type.code :: (p.instruction.map Instruction.code).getD noInstruction ::
    (sequenceBytes p.sequence ++ announced 2 (Bytes.ofText p.tx))

/-- Behind a front, the bytes are two sections after their lengths, and nothing else. -/
structure Sections (front headers body bytes : Bytes) : Prop where
  headers_fits : headers.length ≤ 4294967295
  body_fits : body.length ≤ 4294967295
  whole : bytes = front ++ (announced 4 headers ++ announced 4 body)

theorem layout_eq_front (p : Packet) :
    p.layout = p.front ++ (announced 4 (MessagePack.encode (.map p.headers)) ++
      announced 4 (MessagePack.encode p.body)) := by
  simp only [layout, front, List.cons_append, List.append_assoc]

/-! ## Where the sections are -/

/-- A section is found again by its length. -/
theorem announced_append_inj {s t rest more : Bytes} (short : s.length ≤ 4294967295)
    (small : t.length ≤ 4294967295) (same : announced 4 s ++ rest = announced 4 t ++ more) :
    s = t ∧ rest = more := by
  simp only [announced, List.append_assoc] at same
  obtain ⟨lengths, behind⟩ := List.append_inj same (by simp)
  have length : s.length = t.length := by
    have read := congrArg Bytes.ofLittleEndian lengths
    rwa [Bytes.ofLittleEndian_littleEndian (by omega), Bytes.ofLittleEndian_littleEndian (by omega)]
      at read
  exact List.append_inj behind length

theorem Sections.unique {front headers body headers' body' bytes : Bytes}
    (one : Sections front headers body bytes) (other : Sections front headers' body' bytes) :
    headers' = headers ∧ body' = body := by
  have same := List.append_cancel_left (other.whole.symm.trans one.whole)
  obtain ⟨rfl, bodies⟩ := announced_append_inj other.headers_fits one.headers_fits same
  have last : announced 4 body' ++ [] = announced 4 body ++ [] := by simpa using bodies
  exact ⟨rfl, (announced_append_inj other.body_fits one.body_fits last).1⟩

/-! ## What was read -/

namespace Cursor

variable {c next : Cursor} {what : String} {n width : Nat}

theorem rest_of_take {bytes : Bytes} (read : c.take what n = .ok (bytes, next)) :
    c.rest = bytes ++ next.rest ∧ bytes.length = n := by
  unfold take at read
  split at read
  · next split =>
    cases read
    exact Bytes.split?_eq_some_iff.1 split
  · cases read

theorem rest_of_number (read : c.number what width = .ok (n, next)) :
    c.rest = Bytes.littleEndian width n ++ next.rest ∧ n < 256 ^ width := by
  obtain ⟨⟨bytes, rest⟩, taken, done⟩ := bind_eq_ok_iff.1 read
  cases done
  obtain ⟨whole, rfl⟩ := rest_of_take taken
  rw [Bytes.littleEndian_ofLittleEndian]
  exact ⟨whole, Bytes.ofLittleEndian_lt bytes⟩

theorem rest_of_byte (read : c.number what 1 = .ok (n, next)) :
    c.rest = n.toUInt8 :: next.rest := (rest_of_number read).1

theorem rest_of_instruction {i : Option Instruction} (read : c.instruction = .ok (i, next)) :
    c.rest = (i.map Instruction.code).getD noInstruction :: next.rest := by
  obtain ⟨⟨code, rest⟩, byte, read⟩ := bind_eq_ok_iff.1 read
  rw [rest_of_byte byte]
  dsimp only at read
  split at read
  · next none =>
    cases read
    rw [none]
    rfl
  · obtain ⟨j, known, done⟩ := bind_eq_ok_iff.1 read
    cases done
    simp only [Option.map_some, Option.getD_some]
    unfold Instruction.ofCode at known
    split at known <;> cases known <;> rw [‹code.toUInt8 = _›] <;> rfl

theorem rest_of_sequence {sequence : Option UInt32} (read : c.sequence = .ok (sequence, next)) :
    c.rest = sequenceBytes sequence ++ next.rest := by
  obtain ⟨⟨flags, rest⟩, byte, read⟩ := bind_eq_ok_iff.1 read
  rw [rest_of_byte byte]
  dsimp only at read
  split at read
  · next none =>
    cases read
    rw [none]
    rfl
  · split at read
    · cases read
    · next announces =>
      obtain ⟨⟨n, rest⟩, number, done⟩ := bind_eq_ok_iff.1 read
      cases done
      obtain ⟨behind, small⟩ := rest_of_number number
      have whole : n.toUInt32.toNat = n := UInt32.toNat_ofNat_of_lt' small
      rw [Decidable.not_not.1 announces, behind, sequenceBytes, whole, List.cons_append]

theorem rest_of_transactionId {tx : String} (read : c.transactionId = .ok (tx, next)) :
    c.rest = announced 2 (Bytes.ofText tx) ++ next.rest ∧ (Bytes.ofText tx).length ≤ 65535 := by
  obtain ⟨⟨length, rest⟩, number, read⟩ := bind_eq_ok_iff.1 read
  obtain ⟨⟨bytes, rest⟩, taken, read⟩ := bind_eq_ok_iff.1 read
  dsimp only at read taken
  split at read
  · next text =>
    cases read
    obtain ⟨whole, small⟩ := rest_of_number number
    obtain ⟨behind, rfl⟩ := rest_of_take taken
    rw [whole, behind, announced, Bytes.ofText_of_text? text, List.append_assoc]
    exact ⟨rfl, by omega⟩
  · cases read

theorem rest_of_document {v : Value} (read : c.document what = .ok (v, next)) :
    ∃ bytes, c.rest = announced 4 bytes ++ next.rest ∧ bytes.length ≤ 4294967295 ∧
      MessagePack.decode bytes = .ok v := by
  obtain ⟨⟨length, rest⟩, number, read⟩ := bind_eq_ok_iff.1 read
  obtain ⟨⟨bytes, rest⟩, taken, read⟩ := bind_eq_ok_iff.1 read
  dsimp only at read taken
  split at read
  · next decoded =>
    cases read
    obtain ⟨whole, small⟩ := rest_of_number number
    obtain ⟨behind, rfl⟩ := rest_of_take taken
    exact ⟨bytes, by rw [whole, behind, announced, List.append_assoc], by omega, decoded⟩
  · cases read

theorem document_of_headers {fields : Fields} (read : c.headers = .ok (fields, next)) :
    c.document "headers" = .ok (.map fields, next) := by
  obtain ⟨⟨v, rest⟩, document, read⟩ := bind_eq_ok_iff.1 read
  split at read
  · next same =>
    cases read
    rw [document, same]
  · cases read

/-- A document behind its length is read, however it is spelled. -/
theorem document_of_decode {bytes : Bytes} {v : Value} (content : MessagePack.decode bytes = .ok v)
    (fits : bytes.length ≤ 4294967295) (offset : Nat) (what : String) (rest : Bytes) :
    document ⟨offset, announced 4 bytes ++ rest⟩ what =
      .ok (v, ⟨offset + 4 + bytes.length, rest⟩) := by
  rw [document, announced, List.append_assoc, number_append 4 (by omega), ok_bind]
  simp only [take_append _ rfl, ok_bind, content]
  rfl

end Cursor

theorem code_of_ofCode {code : UInt8} {t : PacketType} (known : PacketType.ofCode code = .ok t) :
    t.code = code := by
  unfold PacketType.ofCode at known
  split at known <;> cases known <;> rfl

variable {p : Packet} {bytes : Bytes}

/-- What the bytes of a packet consist of. -/
theorem sections_of_decode (decoded : decode bytes = .ok p) :
    p.validate = .ok () ∧ (Bytes.ofText p.tx).length ≤ 65535 ∧
      ∃ headers body, Sections p.front headers body bytes ∧
        MessagePack.decode headers = .ok (.map p.headers) ∧
        MessagePack.decode body = .ok p.body := by
  obtain ⟨⟨code, c₁⟩, byte, decoded⟩ := bind_eq_ok_iff.1 decoded
  obtain ⟨type, known, decoded⟩ := bind_eq_ok_iff.1 decoded
  obtain ⟨⟨instruction, c₂⟩, instructed, decoded⟩ := bind_eq_ok_iff.1 decoded
  obtain ⟨⟨sequence, c₃⟩, numbered, decoded⟩ := bind_eq_ok_iff.1 decoded
  obtain ⟨⟨tx, c₄⟩, identified, decoded⟩ := bind_eq_ok_iff.1 decoded
  obtain ⟨⟨fields, c₅⟩, headed, decoded⟩ := bind_eq_ok_iff.1 decoded
  obtain ⟨⟨v, c₆⟩, bodied, decoded⟩ := bind_eq_ok_iff.1 decoded
  dsimp only at decoded known instructed numbered identified headed bodied
  split at decoded
  · cases decoded
  · next finished =>
    obtain ⟨⟨⟩, valid, done⟩ := bind_eq_ok_iff.1 decoded
    cases done
    have last : c₆.rest = [] := by simpa using finished
    obtain ⟨id, short⟩ := Cursor.rest_of_transactionId identified
    obtain ⟨headers, behind, headers_fits, read⟩ :=
      Cursor.rest_of_document (Cursor.document_of_headers headed)
    obtain ⟨body, rest, body_fits, content⟩ := Cursor.rest_of_document bodied
    refine ⟨valid, short, headers, body, ⟨headers_fits, body_fits, ?_⟩, read, content⟩
    calc bytes
        = code.toUInt8 :: c₁.rest := Cursor.rest_of_byte byte
      _ = type.code :: (instruction.map Instruction.code).getD noInstruction ::
            (sequenceBytes sequence ++ (announced 2 (Bytes.ofText tx) ++
              (announced 4 headers ++ announced 4 body))) := by
          rw [code_of_ofCode known, Cursor.rest_of_instruction instructed,
            Cursor.rest_of_sequence numbered, id, behind, rest, last, List.append_nil]
      _ = _ := by simp only [front, List.cons_append, List.append_assoc]

/-- Bytes that consist of this are read as the packet. -/
theorem decode_of_sections {headers body : Bytes} (valid : p.validate = .ok ())
    (id : (Bytes.ofText p.tx).length ≤ 65535) (sections : Sections p.front headers body bytes)
    (read : MessagePack.decode headers = .ok (.map p.headers))
    (content : MessagePack.decode body = .ok p.body) : decode bytes = .ok p := by
  have headed (offset : Nat) (rest : Bytes) :
      Cursor.headers ⟨offset, announced 4 headers ++ rest⟩ =
        .ok (p.headers, ⟨offset + 4 + headers.length, rest⟩) := by
    rw [Cursor.headers, Cursor.document_of_decode read sections.headers_fits, ok_bind]
    rfl
  have bodied (offset : Nat) :
      Cursor.document ⟨offset, announced 4 body⟩ "body" =
        .ok (p.body, ⟨offset + 4 + body.length, []⟩) := by
    have last := Cursor.document_of_decode content sections.body_fits offset "body" []
    rwa [List.append_nil] at last
  rw [sections.whole, decode]
  simp only [front, List.cons_append, List.append_assoc, Cursor.number_byte, ok_bind,
    UInt8.ofNat_toNat, ofCode_code, Cursor.instruction_append, Cursor.sequence_append,
    Cursor.transactionId_append id, headed, bodied, valid]
  rfl

/-- Bytes are the layout of their packet when both sections are spelled as the writer spells them,
and only then. -/
theorem encode_eq_iff {headers body : Bytes} (id : (Bytes.ofText p.tx).length ≤ 65535)
    (sections : Sections p.front headers body bytes)
    (read : MessagePack.decode headers = .ok (.map p.headers))
    (content : MessagePack.decode body = .ok p.body) :
    p.encode = .ok bytes ↔ MessagePack.Canonical headers ∧ MessagePack.Canonical body := by
  constructor
  · intro encoded
    have fits : p.Fits := by
      by_contra long
      obtain ⟨what, size, limit, refused⟩ := encode_of_not_fits long
      rw [encoded] at refused
      cases refused
    rw [encode_of_fits fits] at encoded
    cases encoded
    obtain ⟨rfl, rfl⟩ := Sections.unique ⟨fits.headers, fits.body, p.layout_eq_front⟩ sections
    constructor
    · intro v same
      cases read.symm.trans same
      rfl
    · intro v same
      cases content.symm.trans same
      rfl
  · rintro ⟨spelled, written⟩
    obtain rfl := spelled _ read
    obtain rfl := written _ content
    rw [encode_of_fits ⟨id, sections.headers_fits, sections.body_fits⟩, sections.whole,
      layout_eq_front]

/-! ## Main result -/

/-- Bytes that are read as a packet are its front and, at one place only, the documents of its
headers and its body. The packet is valid, it is written as the same bytes exactly when both
documents are spelled as the writer spells them, and whatever else is read as this packet differs in
one of the two documents. -/
theorem decode_canonical (decoded : decode bytes = .ok p) :
    p.validate = .ok () ∧
      ∃ headers body, Sections p.front headers body bytes ∧
        (∀ headers' body', Sections p.front headers' body' bytes →
          headers' = headers ∧ body' = body) ∧
        MessagePack.decode headers = .ok (.map p.headers) ∧
        MessagePack.decode body = .ok p.body ∧
        (p.encode = .ok bytes ↔ MessagePack.Canonical headers ∧ MessagePack.Canonical body) ∧
        ∀ other, decode other = .ok p → other ≠ bytes →
          ∃ headers' body', Sections p.front headers' body' other ∧
            (headers' ≠ headers ∨ body' ≠ body) := by
  obtain ⟨valid, id, headers, body, sections, read, content⟩ := sections_of_decode decoded
  refine ⟨valid, headers, body, sections, fun _ _ => sections.unique, read, content,
    encode_eq_iff id sections read content, fun other again different => ?_⟩
  obtain ⟨-, -, headers', body', apart, -, -⟩ := sections_of_decode again
  refine ⟨headers', body', apart, ?_⟩
  by_contra same
  obtain ⟨rfl, rfl⟩ : headers' = headers ∧ body' = body := by
    simpa only [not_or, not_not] using same
  exact different (apart.whole.trans sections.whole.symm)

/-- A cancel is read from the bytes that it is written as, and also from bytes that spell its empty
body with the long form of a length: they differ in a section, and one of theirs is not spelled as the
writer spells it. -/
theorem decode_canonical_cancel :
    ∃ written other : Bytes, (cancel "t").encode = .ok written ∧
      decode written = .ok (cancel "t") ∧ decode other = .ok (cancel "t") ∧
      ∃ headers body, Sections (cancel "t").front headers body other ∧
        ¬ (MessagePack.Canonical headers ∧ MessagePack.Canonical body) ∧
        ∃ headers' body', Sections (cancel "t").front headers' body' written ∧
          (headers' ≠ headers ∨ body' ≠ body) := by
  have empty : MessagePack.decode [0x80] = .ok (.map []) := by
    rw [MessagePack.decode, MessagePack.readValue]
    rfl
  have spelled : MessagePack.decode [0xDE, 0, 0] = .ok (.map []) := by
    rw [MessagePack.decode, MessagePack.readValue]
    rfl
  let written : Bytes := [5, 0xFF, 0, 1, 0, 0x74, 1, 0, 0, 0, 0x80, 1, 0, 0, 0, 0x80]
  let other : Bytes := [5, 0xFF, 0, 1, 0, 0x74, 1, 0, 0, 0, 0x80, 3, 0, 0, 0, 0xDE, 0, 0]
  have encoded : (cancel "t").encode = .ok written := rfl
  have short : decode written = .ok (cancel "t") :=
    decode_of_sections rfl (by decide) ⟨by decide, by decide, rfl⟩ empty empty
  have long : decode other = .ok (cancel "t") :=
    decode_of_sections rfl (by decide) ⟨by decide, by decide, rfl⟩ empty spelled
  have different : written ≠ other := by decide
  obtain ⟨-, headers, body, sections, -, -, -, canonical, others⟩ := decode_canonical long
  have unwritten : (cancel "t").encode ≠ .ok other := by
    rw [encoded]
    exact fun same => different (Except.ok.inj same)
  exact ⟨written, other, encoded, short, long, headers, body, sections, mt canonical.2 unwritten,
    others written short different⟩

end Packet

end Patchbay
