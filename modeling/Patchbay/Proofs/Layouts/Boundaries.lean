import Patchbay.Proofs.Layouts.Sections

/-!
# Where a packet ends

A reader goes by the bytes that it takes, and it looks at lengths before it looks at what they announce.
So bytes that are read as a packet tell by themselves where the packet ends: every piece of their front
is reported as truncated, and whatever stands behind them is reported as left over. No packet stands at
the front of another one.
-/

namespace Patchbay.Packet

variable {α β : Type}

/-- The report that the bytes ended in the middle of something. -/
def Truncated (outcome : Except Violation α) : Prop :=
  ∃ what offset, outcome = .error (.malformed (.truncated what offset))

namespace Cursor

/-- The same place, with more bytes behind. -/
def extend (c : Cursor) (s : Bytes) : Cursor := ⟨c.offset, c.rest ++ s⟩

/-- A reader goes by the bytes that it takes: bytes behind them are left as they are, and without the
last of them it reports that they are truncated. -/
structure Steady (read : Cursor → Except Violation (α × Cursor)) : Prop where
  extend : ∀ {c next : Cursor} {a : α}, read c = .ok (a, next) →
    ∀ s, read (c.extend s) = .ok (a, next.extend s)
  cut : ∀ {c next : Cursor} {a : α} {s : Bytes}, read (c.extend s) = .ok (a, next) →
    (∃ short, read c = .ok (a, short) ∧ next = short.extend s) ∨ Truncated (read c)

/-! ## Readers made of readers -/

theorem steady_take (what : String) (n : Nat) : Steady (take · what n) where
  extend := by
    intro c next bytes read s
    unfold take at read ⊢
    split at read
    · next front rest split =>
      cases read
      obtain ⟨whole, width⟩ := Bytes.split?_eq_some_iff.1 split
      have longer : Bytes.split? n (c.extend s).rest = some (bytes, rest ++ s) :=
        Bytes.split?_eq_some_iff.2 ⟨by rw [Cursor.extend, whole, List.append_assoc], width⟩
      rw [longer]
      rfl
    · cases read
  cut := by
    intro c next bytes s read
    unfold take at read
    split at read
    · next front rest split =>
      cases read
      obtain ⟨whole, width⟩ := Bytes.split?_eq_some_iff.1 split
      -- what was taken lies in the front, or reaches into the bytes behind it
      rcases List.append_eq_append_iff.1 whole with ⟨missing, front, behind⟩ | ⟨left, here, behind⟩
      · cases missing with
        | nil =>
          left
          have same : bytes = c.rest := by simpa using front
          refine ⟨⟨c.offset + n, []⟩, ?_, by rw [behind]; rfl⟩
          have split : Bytes.split? n c.rest = some (bytes, []) :=
            Bytes.split?_eq_some_iff.2 ⟨by rw [same, List.append_nil], width⟩
          rw [take, split]
        | cons b missing =>
          right
          have short : Bytes.split? n c.rest = none := by
            rw [← width, front, Bytes.split?]
            simp
          exact ⟨what, c.offset, by rw [take, short]⟩
      · left
        refine ⟨⟨c.offset + n, left⟩, ?_, by rw [behind]; rfl⟩
        have split : Bytes.split? n c.rest = some (bytes, left) :=
          Bytes.split?_eq_some_iff.2 ⟨here, width⟩
        rw [take, split]
    · cases read

theorem steady_ok (a : α) : Steady fun c => .ok (a, c) where
  extend read s := by
    cases read
    rfl
  cut := by
    intro c next b s read
    cases read
    exact .inl ⟨c, rfl, rfl⟩

theorem steady_error (v : Violation) : Steady fun _ => (.error v : Except Violation (α × Cursor)) where
  extend read := by cases read
  cut read := by cases read

/-- Reading something, and then what that calls for. -/
theorem Steady.bind {r : Cursor → Except Violation (α × Cursor)}
    {f : α → Cursor → Except Violation (β × Cursor)} (first : Steady r)
    (later : ∀ a, Steady (f a)) : Steady fun c => r c >>= fun x => f x.1 x.2 where
  extend read s := by
    obtain ⟨⟨a, mid⟩, early, late⟩ := bind_eq_ok_iff.1 read
    rw [first.extend early s, ok_bind]
    exact (later a).extend late s
  cut := by
    intro c next b s read
    obtain ⟨⟨a, mid⟩, early, late⟩ := bind_eq_ok_iff.1 read
    rcases first.cut early with ⟨short, read, rfl⟩ | ⟨what, offset, truncated⟩
    · rw [read, ok_bind]
      exact (later a).cut late
    · exact .inr ⟨what, offset, by rw [truncated, error_bind]⟩

/-- A check that reads nothing. -/
theorem Steady.check {f : α → Cursor → Except Violation (β × Cursor)} (later : ∀ a, Steady (f a))
    (x : Except Violation α) : Steady fun c => x >>= fun a => f a c := by
  cases x with
  | error v => exact steady_error v
  | ok a => exact later a

/-! ## The parts of a packet -/

theorem steady_number (what : String) (width : Nat) : Steady (number · what width) :=
  (steady_take what width).bind fun bytes => steady_ok (Bytes.ofLittleEndian bytes)

/-- A document is looked at when all of it was read. -/
theorem document_eq (c : Cursor) (what : String) :
    c.document what = c.number what 4 >>= fun x => x.2.take what x.1 >>= fun y =>
      (MessagePack.decode y.1).mapError (fun defect => .malformed (.document what defect)) >>=
        fun v => .ok (v, y.2) := by
  unfold document
  congr
  funext x
  dsimp only
  congr
  funext y
  cases MessagePack.decode y.1 <;> rfl

theorem steady_document (what : String) : Steady (document · what) := by
  simp only [document_eq]
  exact (steady_number what 4).bind fun length => (steady_take what length).bind fun bytes =>
    .check (fun v => steady_ok v) ((MessagePack.decode bytes).mapError _)

theorem steady_instruction : Steady instruction :=
  (steady_number "instruction type" 1).bind
    (f := fun (code : Nat) c =>
      if code.toUInt8 = noInstruction then .ok (none, c)
      else Instruction.ofCode code.toUInt8 >>= fun i => .ok (some i, c))
    fun code => by
      split
      · exact steady_ok _
      · exact .check (fun i => steady_ok (some i)) _

theorem steady_sequence : Steady sequence :=
  (steady_number "flags" 1).bind
    (f := fun (flags : Nat) c =>
      if flags.toUInt8 = 0 then .ok (none, c)
      else if flags.toUInt8 ≠ sequenceFlag then .error (.malformed (.unknownFlags flags.toUInt8))
      else c.number "sequence" 4 >>= fun x => .ok (some x.1.toUInt32, x.2))
    fun flags => by
      split
      · exact steady_ok _
      · split
        · exact steady_error _
        · exact (steady_number "sequence" 4).bind fun n => steady_ok (some n.toUInt32)

theorem transactionId_eq (c : Cursor) :
    c.transactionId = c.number "transaction id length" 2 >>= fun x =>
      x.2.take "transaction id" x.1 >>= fun y =>
        (Bytes.text? y.1).elim (.error (.malformed .transactionIdNotText)) .ok >>=
          fun tx => .ok (tx, y.2) := by
  unfold transactionId
  congr
  funext x
  dsimp only
  congr
  funext y
  cases Bytes.text? y.1 <;> rfl

theorem steady_transactionId : Steady transactionId := by
  rw [funext transactionId_eq]
  exact (steady_number "transaction id length" 2).bind fun length =>
    (steady_take "transaction id" length).bind fun bytes =>
      .check (fun tx => steady_ok tx) ((Bytes.text? bytes).elim _ _)

/-- Headers are a document that is a map. -/
theorem headers_eq (c : Cursor) :
    c.headers = c.document "headers" >>= fun x =>
      x.1.asMap?.elim (.error (.malformed (.headersNotMap x.1.typeName))) .ok >>=
        fun fields => .ok (fields, x.2) := by
  unfold headers
  congr
  funext x
  obtain ⟨v, next⟩ := x
  cases v <;> rfl

theorem steady_headers : Steady headers := by
  rw [funext headers_eq]
  exact (steady_document "headers").bind fun v =>
    .check (fun fields => steady_ok fields)
      (v.asMap?.elim (.error (.malformed (.headersNotMap v.typeName))) .ok)

/-- All parts of a packet. -/
def packet (c : Cursor) : Except Violation (Packet × Cursor) := do
  let (code, c) ← c.number "packet type" 1
  let type ← PacketType.ofCode code.toUInt8
  let (instruction, c) ← c.instruction
  let (sequence, c) ← c.sequence
  let (tx, c) ← c.transactionId
  let (headers, c) ← c.headers
  let (body, c) ← c.document "body"
  return (⟨tx, type, instruction, sequence, headers, body⟩, c)

theorem steady_packet : Steady packet :=
  (steady_number "packet type" 1).bind fun code => .check (fun type =>
    steady_instruction.bind fun instruction => steady_sequence.bind fun sequence =>
      steady_transactionId.bind fun tx => steady_headers.bind fun headers =>
        (steady_document "body").bind fun body =>
          steady_ok (Packet.mk tx type instruction sequence headers body))
    (PacketType.ofCode code.toUInt8)

end Cursor

/-! ## Main result -/

variable {p : Packet} {bytes : Bytes}

/-- Nothing may be left over, and then the fields have to be right. -/
theorem decode_eq (bytes : Bytes) :
    decode bytes = Cursor.packet ⟨0, bytes⟩ >>= fun x =>
      if !x.2.rest.isEmpty then .error (.malformed (.trailing x.2.rest.length))
      else x.1.validate >>= fun _ => .ok x.1 := by
  simp only [decode, Cursor.packet, bind_assoc, pure_bind]
  rfl

theorem packet_of_decode (decoded : decode bytes = .ok p) :
    ∃ offset, Cursor.packet ⟨0, bytes⟩ = .ok (p, ⟨offset, []⟩) := by
  rw [decode_eq] at decoded
  obtain ⟨⟨q, offset, rest⟩, read, decoded⟩ := bind_eq_ok_iff.1 decoded
  dsimp only at decoded
  split at decoded
  · cases decoded
  · next finished =>
    obtain ⟨done, -, same⟩ := bind_eq_ok_iff.1 decoded
    cases same
    have last : rest = [] := by simpa using finished
    exact ⟨offset, last ▸ read⟩

/-- Bytes that are read as a packet are read so whole only. Every piece of their front but the whole is
malformed, for it ends in the middle of a part of the packet. With other bytes behind them they are
malformed, for these are left over. -/
theorem decode_alone (decoded : decode bytes = .ok p) :
    (∀ front, front <+: bytes → front ≠ bytes → Truncated (decode front)) ∧
      ∀ s, s ≠ [] → decode (bytes ++ s) = .error (.malformed (.trailing s.length)) ∧
        (Malformation.trailing s.length).message =
          toString s.length ++ " trailing bytes after packet" := by
  obtain ⟨offset, read⟩ := packet_of_decode decoded
  constructor
  · rintro front ⟨s, rfl⟩ proper
    have some : s ≠ [] := by
      rintro rfl
      exact proper (List.append_nil front).symm
    rw [decode_eq]
    rcases Cursor.steady_packet.cut (c := ⟨0, front⟩) read with
      ⟨short, -, same⟩ | ⟨what, place, truncated⟩
    · -- the whole packet would lie in the front, and the bytes behind it would be left over
      have behind : [] = short.rest ++ s := congrArg Cursor.rest same
      exact absurd (List.append_eq_nil_iff.1 behind.symm).2 some
    · exact ⟨what, place, by rw [truncated, error_bind]⟩
  · intro s some
    refine ⟨?_, rfl⟩
    have longer := Cursor.steady_packet.extend read s
    have left : (!s.isEmpty) = true := by simpa using some
    rw [decode_eq]
    simp only [Cursor.extend, List.nil_append] at longer
    rw [longer, ok_bind]
    exact if_pos left

/-- Without its last byte a cancel ends in the middle of its body, and a byte behind it is left over. -/
theorem decode_alone_cancel :
    ∃ bytes, (cancel "t").encode = .ok bytes ∧ decode bytes = .ok (cancel "t") ∧
      Truncated (decode bytes.dropLast) ∧
      decode (bytes ++ [0x80]) = .error (.malformed (.trailing 1)) := by
  have distinct : (cancel "t").KeysDistinct := by
    constructor <;> simp [cancel, bare, Value.KeysDistinct, Value.KeysDistinctEntries]
  have fits : (cancel "t").Fits := ⟨by decide, by decide, by decide⟩
  have decoded : decode (cancel "t").layout = .ok (cancel "t") := by
    rw [decode_layout fits distinct]
    rfl
  obtain ⟨cut, longer⟩ := decode_alone decoded
  refine ⟨_, encode_of_fits fits, decoded, cut _ (List.dropLast_prefix _) (by decide), ?_⟩
  exact (longer [0x80] (by decide)).1

end Patchbay.Packet
