import Mathlib.Data.List.Forall2
import Patchbay.Proofs.Frames.Reading

/-!
# What a decoder keeps

The bytes that were fed without a failure are the frames of the packets that were given out, one behind
the other, and the bytes that are kept. These are less than a frame, so their number is bounded by what a
length may announce, and there are some of them exactly when the stream stops inside a frame.
-/

namespace Patchbay.Frame

variable {stream bytes frame other more rest tail : Bytes} {ps : List Packet} {length : Nat}

/-! ## Less than a frame -/

/-- A complete frame, whatever is in it. -/
inductive Complete : Bytes → Prop where
  | wrap (type : UInt8) {payload : Bytes} (fits : payload.length + 1 ≤ limit) :
      Complete (wrap type payload)

/-- The bytes are a part of a complete frame that it starts with, and not the whole of it. -/
def Begun (bytes : Bytes) : Prop := ∃ more, more ≠ [] ∧ Complete (bytes ++ more)

/-- Behind complete frames the stream has some bytes more, which are not a whole frame. -/
def EndsInside (stream : Bytes) : Prop :=
  ∃ (frames : List Bytes) (front : Bytes), (∀ frame ∈ frames, Complete frame) ∧
    stream = frames.flatten ++ front ∧ front ≠ [] ∧ Begun front

theorem Holds.complete {p : Packet} (h : Holds frame p) : Complete frame := by
  cases h with
  | packet fits decodes => exact .wrap packetType fits

/-- Of two complete frames at the start of one stream neither goes on where the other ends. -/
theorem complete_append_inj (first : Complete frame) (second : Complete other)
    (same : frame ++ rest = other ++ tail) : frame = other ∧ rest = tail := by
  obtain @⟨type, payload, fits⟩ := first
  obtain @⟨type', payload', fits'⟩ := second
  have word : limit < 256 ^ 4 := by decide
  have split : Bytes.littleEndian 4 (payload.length + 1) ++ (type :: payload ++ rest) =
      Bytes.littleEndian 4 (payload'.length + 1) ++ (type' :: payload' ++ tail) := by
    simpa [wrap] using same
  obtain ⟨announced, behind⟩ := List.append_inj split (by simp)
  have length := congrArg Bytes.ofLittleEndian announced
  rw [Bytes.ofLittleEndian_littleEndian (by omega), Bytes.ofLittleEndian_littleEndian (by omega)]
    at length
  obtain ⟨body, remains⟩ := List.append_inj behind (by simpa using length)
  cases body
  exact ⟨rfl, remains⟩

/-- What has only begun does not start with a complete frame. -/
theorem Begun.ne_append (begun : Begun bytes) (complete : Complete frame) (more : Bytes) :
    bytes ≠ frame ++ more := by
  rintro rfl
  obtain ⟨last, some, whole⟩ := begun
  have same : frame ++ (more ++ last) = frame ++ more ++ last ++ [] := by simp
  obtain ⟨-, nothing⟩ := complete_append_inj complete whole same
  exact some (List.append_eq_nil_iff.1 nothing).2

/-- A stream has one division into complete frames and the start of one. -/
theorem Begun.unique (begun : Begun rest) (begun' : Begun tail) {frames others : List Bytes}
    (complete : ∀ frame ∈ frames, Complete frame) (complete' : ∀ frame ∈ others, Complete frame)
    (same : frames.flatten ++ rest = others.flatten ++ tail) : rest = tail := by
  induction frames generalizing others with
  | nil =>
    cases others with
    | nil => exact same
    | cons other others =>
      rw [List.flatten_nil, List.nil_append, List.flatten_cons, List.append_assoc] at same
      exact absurd same (begun.ne_append (complete' other List.mem_cons_self) _)
  | cons frame frames ih =>
    rw [List.flatten_cons, List.append_assoc] at same
    cases others with
    | nil => exact absurd same.symm (begun'.ne_append (complete frame List.mem_cons_self) _)
    | cons other others =>
      rw [List.flatten_cons, List.append_assoc] at same
      rw [List.forall_mem_cons] at complete complete'
      exact ih complete.2 complete'.2 (complete_append_inj complete.1 complete'.1 same).2

/-- An announced frame is completed by any bytes that fill it. -/
theorem begun_of_announced (some : 1 ≤ length) (fits : length ≤ limit)
    (missing : rest.length < length) : Begun (Bytes.littleEndian 4 length ++ rest) := by
  refine ⟨List.replicate (length - rest.length) 0, ?_, ?_⟩
  · rw [Ne, List.replicate_eq_nil_iff]
    omega
  have size : (rest ++ List.replicate (length - rest.length) 0).length = length := by
    rw [List.length_append, List.length_replicate]
    omega
  rw [List.append_assoc]
  generalize rest ++ List.replicate (length - rest.length) 0 = body at size
  cases body with
  | nil => exact absurd size (by simp; omega)
  | cons type payload =>
    subst size
    exact .wrap type fits

/-- Fewer than four bytes go on to an allowed length. -/
theorem exists_announced (short : bytes.length < 4) :
    ∃ length more, 1 ≤ length ∧ length ≤ limit ∧ bytes ++ more = Bytes.littleEndian 4 length := by
  have small := Bytes.ofLittleEndian_lt bytes
  have width : bytes.length + (4 - bytes.length) = 4 := by omega
  have within : 256 ^ bytes.length ≤ limit :=
    Nat.le_trans (Nat.pow_le_pow_right (by decide) (by omega)) (show 256 ^ 3 ≤ limit by decide)
  by_cases zero : Bytes.ofLittleEndian bytes = 0
  · -- the largest length has a bit in its last byte only
    have full : 256 ^ bytes.length * 256 ^ (3 - bytes.length) = limit := by
      rw [← Nat.pow_add, show bytes.length + (3 - bytes.length) = 3 by omega]
      rfl
    have form := Bytes.littleEndian_append bytes (4 - bytes.length) (256 ^ (3 - bytes.length))
    rw [width, zero, full, Nat.zero_add] at form
    exact ⟨limit, _, by decide, Nat.le_refl _, form.symm⟩
  · have form := Bytes.littleEndian_append bytes (4 - bytes.length) 0
    rw [width, Nat.mul_zero, Nat.add_zero] at form
    exact ⟨_, _, by omega, by omega, form.symm⟩

theorem Unfilled.begun (h : Unfilled bytes) : Begun bytes := by
  obtain short | ⟨length, rest, some, fits, rfl, missing⟩ := h
  · obtain ⟨length, more, some, fits, announced⟩ := exists_announced short
    obtain ⟨last, missing, whole⟩ : Begun (Bytes.littleEndian 4 length ++ []) :=
      begun_of_announced some fits some
    rw [List.append_nil, ← announced, List.append_assoc] at whole
    exact ⟨more ++ last, fun nothing => missing (List.append_eq_nil_iff.1 nothing).2, whole⟩
  · rw [List.length_append, Bytes.length_littleEndian] at missing
    exact begun_of_announced some fits (by omega)

theorem Unfilled.length_lt (h : Unfilled bytes) : bytes.length < limit + 4 := by
  obtain short | ⟨length, rest, some, fits, -, missing⟩ := h
  · exact Nat.lt_of_lt_of_le short (Nat.le_add_left 4 limit)
  · omega

/-! ## What is left when the decoder stops -/

namespace Decoder

/-- The frames of the packets, one behind the other. -/
theorem exists_frames (begins : Begins stream ps rest) :
    ∃ frames : List Bytes, List.Forall₂ Holds frames ps ∧ stream = frames.flatten ++ rest := by
  induction begins with
  | nil rest => exact ⟨[], .nil, rfl⟩
  | @cons frame p stream ps rest first others ih =>
    obtain ⟨frames, each, rfl⟩ := ih
    exact ⟨frame :: frames, .cons first each, by rw [List.flatten_cons, List.append_assoc]⟩

theorem complete_of_holds {frames : List Bytes} (each : List.Forall₂ Holds frames ps) :
    ∀ frame ∈ frames, Complete frame := by
  induction each with
  | nil => nofun
  | cons first others ih => exact List.forall_mem_cons.2 ⟨first.complete, ih⟩

theorem hasPartial_iff {d : Decoder} : d.hasPartial = true ↔ d.buffer ≠ [] := by
  simp [hasPartial]

/-- What was fed without a failure up to some point was fed without a failure. -/
theorem feedAll_append_left {front back : List Bytes} {d last : Decoder} (settled : d.Settled)
    (fed : d.feedAll (front ++ back) = .ok (ps, last)) :
    ∃ qs next, d.feedAll front = .ok (qs, next) := by
  rw [feedAll_of_settled settled, List.flatten_append, feed_append] at fed
  obtain ⟨⟨qs, next⟩, first, -⟩ := bind_eq_ok_iff.1 fed
  exact ⟨qs, next, (feedAll_of_settled settled front).trans first⟩

/-- What has been fed without a failure is accounted for: it is the frames of the packets that came out,
in order, and behind them what is kept, which is less than a frame. So no complete frame is held back,
something is kept exactly when the stream stops inside a frame, and after each of the feeds fewer bytes
than the largest frame has were kept. -/
theorem buffer_accounted {chunks : List Bytes} {d : Decoder}
    (fed : empty.feedAll chunks = .ok (ps, d)) :
    (∃ frames : List Bytes, List.Forall₂ Holds frames ps ∧
        chunks.flatten = frames.flatten ++ d.buffer) ∧
      (d.buffer.length < 4 ∨
        ∃ length rest, 1 ≤ length ∧ length ≤ 16 * 1024 * 1024 ∧
          d.buffer = Bytes.littleEndian 4 length ++ rest ∧ d.buffer.length < 4 + length) ∧
      (∀ frame more, Complete frame → d.buffer ≠ frame ++ more) ∧
      (d.hasPartial = true ↔ EndsInside chunks.flatten) ∧
      ∀ front back, chunks = front ++ back →
        ∃ qs next, empty.feedAll front = .ok (qs, next) ∧
          next.buffer.length < 16 * 1024 * 1024 + 4 := by
  obtain ⟨begins, settled⟩ := begins_of_feedAll settled_empty fed
  obtain ⟨frames, each, accounted⟩ := exists_frames begins
  have unfilled := unfilled_of_incomplete settled
  have whole := complete_of_holds each
  refine ⟨⟨frames, each, accounted⟩, unfilled,
    fun frame more complete => unfilled.begun.ne_append complete more, ?_, ?_⟩
  · rw [hasPartial_iff]
    constructor
    · exact fun some => ⟨frames, d.buffer, whole, accounted, some, unfilled.begun⟩
    · rintro ⟨others, front, complete, same, some, begun⟩
      rwa [unfilled.begun.unique begun whole complete (accounted.symm.trans same)]
  · rintro front back rfl
    obtain ⟨qs, next, first⟩ := feedAll_append_left settled_empty fed
    have kept := unfilled_of_incomplete (begins_of_feedAll settled_empty first).2
    exact ⟨qs, next, first, kept.length_lt⟩

/-- A frame that is cut inside its length, and the first byte of the frame behind it. -/
theorem buffer_accounted_cut :
    let chunks : List Bytes :=
      [[17, 0, 0], [0, 1, 5, 255, 0, 1, 0, 116, 1, 0, 0, 0, 128, 1, 0, 0, 0, 128, 9, 0, 0, 0, 1]]
    empty.feedAll chunks = .ok ([Packet.cancel "t"], ⟨[9, 0, 0, 0, 1]⟩) ∧
      (∃ frames : List Bytes, List.Forall₂ Holds frames [Packet.cancel "t"] ∧
        chunks.flatten = frames.flatten ++ [9, 0, 0, 0, 1]) ∧
      EndsInside chunks.flatten ∧
      ∃ qs next, empty.feedAll [[17, 0, 0]] = .ok (qs, next) ∧
        next.buffer.length < 16 * 1024 * 1024 + 4 := by
  intro chunks
  have distinct : (Packet.cancel "t").KeysDistinct := by
    constructor <;>
      simp [Packet.cancel, Packet.bare, Value.KeysDistinct, Value.KeysDistinctEntries]
  have decoded : Packet.decode (Packet.cancel "t").layout = .ok (Packet.cancel "t") := by
    rw [Packet.decode_layout ⟨by decide, by decide, by decide⟩ distinct]
    rfl
  have holds : Holds (wrap packetType (Packet.cancel "t").layout) (Packet.cancel "t") :=
    .packet (by decide) decoded
  have whole : chunks.flatten = wrap packetType (Packet.cancel "t").layout ++ [9, 0, 0, 0, 1] := rfl
  have begins : Begins chunks.flatten [Packet.cancel "t"] [9, 0, 0, 0, 1] :=
    whole ▸ .cons holds (.nil [9, 0, 0, 0, 1])
  have cut : Unfilled [9, 0, 0, 0, 1] := .inr ⟨9, [1], by decide, by decide, rfl, by decide⟩
  have fed : empty.feedAll chunks = .ok ([Packet.cancel "t"], ⟨[9, 0, 0, 0, 1]⟩) :=
    (feedAll_of_settled settled_empty chunks).trans
      (feed_of_incomplete begins (step_of_unfilled cut))
  obtain ⟨accounted, -, -, inside, bounded⟩ := buffer_accounted fed
  exact ⟨fed, accounted, inside.1 rfl, bounded [[17, 0, 0]] _ rfl⟩

end Decoder

end Patchbay.Frame
