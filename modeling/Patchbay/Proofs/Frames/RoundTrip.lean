import Patchbay.Proofs.Frames
import Patchbay.Proofs.Frames.Decoding

/-!
# Streams read back

A packet is refused only for the length of its id or of its layout, the type byte counted. What was
not refused stands on the stream as a frame that holds the packet. So the frames of any packets, one
behind the other, are read back as these packets, in whatever pieces they come in.
-/

namespace Patchbay.Frame

/-- A packet that its reader accepts, whatever its size. -/
structure Readable (p : Packet) : Prop where
  distinct : p.KeysDistinct
  valid : p.validate = .ok ()
  shallow : p.Shallow

variable {p : Packet}

theorem Readable.decode_layout (readable : Readable p) (fits : p.Fits) :
    Packet.decode p.layout = .ok p := by
  rw [Packet.decode_layout fits readable.distinct, if_pos readable.shallow.headers,
    if_pos readable.shallow.body, readable.valid]
  rfl

/-! ## What is refused -/

/-- A section that does not fit its length field does not fit a frame either, but for the id. -/
theorem fits_of_layout_length (id : (Bytes.ofText p.tx).length ≤ 65535)
    (small : 1 + p.layout.length ≤ limit) : p.Fits := by
  have counted : limit ≤ 4294967295 := by decide
  rw [Packet.layout_length] at small
  exact ⟨id, by omega, by omega⟩

theorem encode_of_small (id : (Bytes.ofText p.tx).length ≤ 65535)
    (small : 1 + p.layout.length ≤ limit) : encode p = .ok (wrap packetType p.layout) := by
  rw [encode_of_fits (fits_of_layout_length id small), if_pos (by omega), wrap]

theorem encode_eq_error_iff :
    (∃ v, encode p = .error v) ↔
      65535 < (Bytes.ofText p.tx).length ∨ limit < 1 + p.layout.length := by
  constructor
  · rintro ⟨v, refused⟩
    by_contra small
    rw [encode_of_small (by omega) (by omega)] at refused
    cases refused
  · intro large
    by_cases fits : p.Fits
    · have id := fits.id
      rw [encode_of_fits fits, if_neg (by omega)]
      exact ⟨_, rfl⟩
    · obtain ⟨what, size, bound, refused⟩ := Packet.encode_of_not_fits fits
      rw [encode, refused]
      exact ⟨_, rfl⟩

/-- Whatever a packet is encoded as is its layout. -/
theorem eq_layout_of_encode {bytes : Bytes} (encoded : p.encode = .ok bytes) :
    bytes = p.layout := by
  by_cases fits : p.Fits
  · rw [Packet.encode_of_fits fits] at encoded
    cases encoded
    rfl
  · obtain ⟨what, size, bound, refused⟩ := Packet.encode_of_not_fits fits
    rw [refused] at encoded
    cases encoded

/-! ## What is read -/

theorem holds_of_encode {frame : Bytes} (readable : Readable p) (encoded : encode p = .ok frame) :
    Holds frame p := by
  by_cases large : 65535 < (Bytes.ofText p.tx).length ∨ limit < 1 + p.layout.length
  · obtain ⟨v, refused⟩ := encode_eq_error_iff.2 large
    rw [refused] at encoded
    cases encoded
  · have id : (Bytes.ofText p.tx).length ≤ 65535 := by omega
    have small : 1 + p.layout.length ≤ limit := by omega
    rw [encode_of_small id small] at encoded
    cases encoded
    exact .packet (by omega) (readable.decode_layout (fits_of_layout_length id small))

/-- One frame after the other, with nothing behind them. -/
theorem begins_of_encode {ps : List Packet} {frames : List Bytes}
    (readable : ∀ p ∈ ps, Readable p) (encoded : ps.map encode = frames.map .ok) :
    Begins frames.flatten ps [] := by
  induction ps generalizing frames with
  | nil =>
    cases frames with
    | nil => exact .nil []
    | cons => cases encoded
  | cons p ps ih =>
    cases frames with
    | nil => cases encoded
    | cons frame frames =>
      rw [List.map_cons, List.map_cons, List.cons.injEq] at encoded
      rw [List.forall_mem_cons] at readable
      rw [List.flatten_cons]
      exact .cons (holds_of_encode readable.1 encoded.1) (ih readable.2 encoded.2)

/-! ## Main result -/

/-- A packet is refused exactly when its id or its layout is too long. The frames of packets of which
none is refused are read back in any pieces, with nothing left over. -/
theorem stream_round_trip {ps : List Packet} (readable : ∀ p ∈ ps, Readable p) :
    (∀ p ∈ ps, (∀ bytes, p.encode = .ok bytes → bytes = p.layout) ∧
      ((∃ v, encode p = .error v) ↔
        65535 < (Bytes.ofText p.tx).length ∨ limit < 1 + p.layout.length)) ∧
    ∀ frames : List Bytes, ps.map encode = frames.map .ok →
      ∀ chunks : List Bytes, chunks.flatten = frames.flatten →
        ∃ d, Decoder.empty.feedAll chunks = .ok (ps, d) ∧ d.buffer = [] ∧
          d.hasPartial = false := by
  refine ⟨fun p _ => ⟨fun bytes => eq_layout_of_encode, encode_eq_error_iff⟩, ?_⟩
  intro frames encoded chunks cut
  have begins : Begins (Decoder.empty.buffer ++ chunks.flatten) ps [] := by
    rw [cut]
    exact begins_of_encode readable encoded
  refine ⟨⟨[]⟩, ?_, rfl, rfl⟩
  rw [Decoder.feedAll_of_settled Decoder.settled_empty]
  exact Decoder.feed_of_incomplete begins (Decoder.step_of_short (by decide))

/-- The text that makes an output with an id of one byte as large as a frame can be. -/
def fullText : String := String.ofList (List.replicate 16777169 'x')

def fullOutput (tx : String) : Packet := .output tx 0 true (.string fullText)

theorem fullOutput_layout_length (tx : String) :
    (fullOutput tx).layout.length = (Bytes.ofText tx).length + 16777214 := by
  have text : (Bytes.ofText fullText).length = 16777169 :=
    Bytes.length_ofText_replicate 16777169 'x'
  have long : 65536 ≤ (Bytes.ofText fullText).length := by rw [text]; decide
  rw [fullOutput, Packet.output_layout_length long, text]

/-- A packet that is small and one that fills a frame are read back, also when the stream is cut in
the middle of the first length. With one byte more there is no frame. -/
theorem stream_round_trip_full :
    (∀ p ∈ [Packet.cancel "t", fullOutput "t"], Readable p) ∧
    1 + (fullOutput "t").layout.length = limit ∧
    (∃ v, encode (fullOutput "tt") = .error v) ∧
    ∃ frames : List Bytes, [Packet.cancel "t", fullOutput "t"].map encode = frames.map .ok ∧
      ∃ d, Decoder.empty.feedAll [frames.flatten.take 3, frames.flatten.drop 3] =
          .ok ([Packet.cancel "t", fullOutput "t"], d) ∧
        d.buffer = [] ∧ d.hasPartial = false := by
  have full : 1 + (fullOutput "t").layout.length = limit := by
    rw [fullOutput_layout_length]
    decide
  have beyond : limit < 1 + (fullOutput "tt").layout.length := by
    rw [fullOutput_layout_length]
    decide
  have readable : ∀ p ∈ [Packet.cancel "t", fullOutput "t"], Readable p := by
    simp only [List.forall_mem_cons, List.not_mem_nil, false_implies, implies_true, and_true]
    constructor <;> refine ⟨?_, rfl, ?_⟩ <;> constructor <;>
      simp [fullOutput, Packet.cancel, Packet.output, Packet.bare, Value.KeysDistinct,
        Value.KeysDistinctEntries, Value.depth, Value.depthEntries]
  have encoded : [Packet.cancel "t", fullOutput "t"].map encode =
      [wrap packetType (Packet.cancel "t").layout,
        wrap packetType (fullOutput "t").layout].map .ok := by
    rw [List.map_cons, List.map_cons, encode_of_small (by decide) (by decide),
      encode_of_small (p := fullOutput "t") (by decide) full.le]
    rfl
  refine ⟨readable, full, encode_eq_error_iff.2 (.inr beyond), _, encoded, ?_⟩
  exact (stream_round_trip readable).2 _ encoded _ (by simp)

end Patchbay.Frame
