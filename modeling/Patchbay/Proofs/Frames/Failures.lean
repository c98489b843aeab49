import Mathlib.Data.Nat.Digits.Defs
import Patchbay.Socket
import Patchbay.Proofs.Frames
import Patchbay.Proofs.Layouts.Sections

/-!
# Failures fit a frame

A packet without a frame is answered by a failure that says which part was too long, and how long it
was. That failure always has a frame: a length is told in decimal digits, so the text stays short
however long the part is. And every packet that was read from a frame has an id that can be answered.
-/

namespace Patchbay

/-! ## How long texts are -/

namespace Bytes

theorem length_ofText_append (s t : String) :
    (ofText (s ++ t)).length = (ofText s).length + (ofText t).length := by
  simp [ofText]

/-- A character takes four bytes at most. -/
theorem length_ofText_le (s : String) : (ofText s).length ≤ 4 * s.length := by
  have bytes : (ofText s).length = (s.toList.map Char.utf8Size).sum := by
    obtain ⟨cs, rfl⟩ : ∃ cs, s = String.ofList cs := ⟨s.toList, by simp⟩
    simp [ofText, List.utf8Encode, List.data_toByteArray, List.length_flatMap]
  rw [bytes, ← String.length_toList]
  induction s.toList with
  | nil => rfl
  | cons c rest ih =>
    have char := c.utf8Size_le_four
    rw [List.map_cons, List.sum_cons, List.length_cons]
    omega

/-- A number has no more digits than a power of ten above it has zeros. -/
theorem length_ofText_toString {n zeros : Nat} (some : 0 < zeros) (small : n < 10 ^ zeros) :
    (ofText (toString n)).length ≤ 4 * zeros :=
  (length_ofText_le _).trans (Nat.mul_le_mul_left 4 (Nat.repr_length n zeros some small))

end Bytes

/-! ## What is too long -/

namespace Packet

/-- A bound on how long the frame of a packet would be. -/
def weight (p : Packet) : Nat :=
  (Bytes.ofText p.tx).length + (MessagePack.encode (.map p.headers)).length +
    (MessagePack.encode p.body).length + 18

theorem layout_length_lt (p : Packet) : p.layout.length < p.weight := by
  have flags : (sequenceBytes p.sequence).length ≤ 5 := by
    cases p.sequence <;> simp [sequenceBytes]
  rw [layout_length, weight]
  omega

/-- What may be too long, as texts name it. -/
def parts : List String := ["transaction id", "headers", "body", "frame"]

/-- A report that something of a packet is too long. -/
inductive TooLong (p : Packet) : Violation → Prop where
  | part {what : String} {size limit : Nat} (named : what ∈ parts) (size_le : size ≤ p.weight)
      (limit_lt : limit < 10 ^ 10) : TooLong p (.tooLarge what size limit)

variable {p : Packet} {v : Violation}

theorem tooLong_of_encode (refused : p.encode = .error v) : p.TooLong v := by
  rw [encode] at refused
  by_cases id : (Bytes.ofText p.tx).length ≤ 256 ^ 2 - 1
  · by_cases headers : (MessagePack.encode (.map p.headers)).length ≤ 256 ^ 4 - 1
    · by_cases body : (MessagePack.encode p.body).length ≤ 256 ^ 4 - 1
      · simp only [section?_ok 2 id, section?_ok 4 headers, section?_ok 4 body, ok_bind] at refused
        cases refused
      · simp only [section?_ok 2 id, section?_ok 4 headers, section?_error 4 body, ok_bind]
          at refused
        cases refused
        exact .part (by decide) (by rw [weight]; omega) (by decide)
    · simp only [section?_ok 2 id, section?_error 4 headers, ok_bind] at refused
      cases refused
      exact .part (by decide) (by rw [weight]; omega) (by decide)
  · rw [section?_error 2 id] at refused
    cases refused
    exact .part (by decide) (by rw [weight]; omega) (by decide)

theorem tooLarge_message (what : String) (size limit : Nat) :
    (Violation.tooLarge what size limit).message =
      what ++ " is " ++ toString size ++ " bytes (max " ++ toString limit ++ ")" := rfl

/-- Only the digits of one number depend on the packet. -/
theorem TooLong.message_length (report : p.TooLong v) {zeros : Nat} (some : 0 < zeros)
    (small : p.weight < 10 ^ zeros) :
    (Bytes.ofText v.message).length ≤ 4 * zeros + 71 := by
  cases report with
  | @part what size limit named size_le limit_lt =>
    have name : (Bytes.ofText what).length ≤ 14 := by
      revert what
      decide
    have size := Bytes.length_ofText_toString some (Nat.lt_of_le_of_lt size_le small)
    have limit := Bytes.length_ofText_toString (by decide) limit_lt
    have is : (Bytes.ofText " is ").length = 4 := by decide
    have bytes : (Bytes.ofText " bytes (max ").length = 12 := by decide
    have close : (Bytes.ofText ")").length = 1 := by decide
    rw [tooLarge_message]
    simp only [Bytes.length_ofText_append]
    omega

end Packet

/-! ## Failures -/

/-- Around the text in it, the body of a failure is of bounded length. -/
theorem Fault.body_length (f : Fault) :
    (MessagePack.encode f.body).length ≤ (Bytes.ofText f.message).length + 90 := by
  have code : (Bytes.ofText f.code).length ≤ 20 := by
    cases f <;> simp only [Fault.code] <;> decide
  have coded := (MessagePack.encodeText_length f.code).2
  have detailed := (MessagePack.encodeText_length f.message).2
  have head : (MessagePack.Head.map 3).put.length = 1 := rfl
  have status : (MessagePack.Head.bool false).put.length = 1 := rfl
  have keys : (MessagePack.encodeText "status").length = 7 ∧
      (MessagePack.encodeText "reason").length = 7 ∧
      (MessagePack.encodeText "detail").length = 7 := ⟨rfl, rfl, rfl⟩
  have none : MessagePack.encodeEntries [] = [] := rfl
  rw [Fault.body, MessagePack.encode_map, MessagePack.encodeEntries_cons,
    MessagePack.encodeEntries_cons, MessagePack.encodeEntries_cons, none,
    MessagePack.encode_bool, MessagePack.encode_string, MessagePack.encode_string]
  simp only [List.length_append, List.length_cons, List.length_nil, Nat.zero_add, Nat.reduceAdd]
  omega

namespace Packet

theorem respondFault_weight (tx : String) (f : Fault) :
    (respondFault tx f).weight ≤ (Bytes.ofText tx).length + (Bytes.ofText f.message).length + 120 := by
  have headers : (MessagePack.encode (.map [])).length = 1 := rfl
  have body := f.body_length
  simp only [weight, respondFault, bare, headers]
  omega

theorem outputFault_weight (tx : String) (sequence : UInt32) (f : Fault) :
    (outputFault tx sequence f).weight ≤
      (Bytes.ofText tx).length + (Bytes.ofText f.message).length + 120 := by
  have headers : (MessagePack.encode (.map [(Header.done, .bool false)])).length = 7 := rfl
  have body := f.body_length
  simp only [weight, outputFault, bare, headers]
  omega

end Packet

namespace Frame

variable {p : Packet} {v : Violation}

theorem tooLong_of_encode (refused : encode p = .error v) : p.TooLong v := by
  cases layout : p.encode with
  | error w =>
    rw [encode, layout] at refused
    cases refused
    exact Packet.tooLong_of_encode layout
  | ok payload =>
    have fits : p.Fits := by
      by_contra long
      obtain ⟨what, size, limit, refused⟩ := Packet.encode_of_not_fits long
      rw [layout] at refused
      cases refused
    rw [encode_of_fits fits] at refused
    split at refused
    · cases refused
    · cases refused
      exact .part (by decide) p.layout_length_lt (by decide)

theorem encode_of_weight (id : (Bytes.ofText p.tx).length ≤ 65535) (light : p.weight ≤ limit) :
    ∃ bytes, encode p = .ok bytes := by
  have bound : limit = 16777216 := rfl
  have parts := light
  rw [Packet.weight] at parts
  have short := p.layout_length_lt
  have fits : p.Fits := ⟨id, by omega, by omega⟩
  exact ⟨_, by rw [encode_of_fits fits, if_pos (by omega)]⟩

end Frame

/-! ## Ids that were read -/

theorem Frame.Begins.id_length {stream rest : Bytes} {ps : List Packet} {p : Packet}
    (begins : Begins stream ps rest) (member : p ∈ ps) : (Bytes.ofText p.tx).length ≤ 65535 := by
  induction begins with
  | nil => cases member
  | cons first _ ih =>
    rcases List.mem_cons.1 member with rfl | later
    · cases first with
      | packet fits decodes => exact (Packet.sections_of_decode decodes).2.1
    · exact ih later

/-- The id of every packet that comes in over a socket is told in two bytes. -/
theorem Socket.pump?_id {s next : Socket} {signals : List Signal} {p : Packet}
    (pumped : s.pump? = some (signals, next)) (member : .packet p ∈ signals) :
    (Bytes.ofText p.tx).length ≤ 65535 := by
  unfold pump? at pumped
  split at pumped
  · cases pumped
  · next ps inward read =>
    cases pumped
    obtain ⟨q, among, same⟩ := List.mem_map.1 member
    cases same
    unfold Flow.read? at read
    split at read
    · cases read
    · split at read
      · next chunk rest popped =>
        obtain ⟨qs, behind, leads, ⟨-, fed⟩ | ⟨v, -, fed⟩⟩ :=
          Frame.Decoder.feed_cases s.inward.decoder chunk
        · rw [fed] at read
          cases read
          exact leads.begins.id_length among
        · rw [fed] at read
          cases read
      · split at read <;> cases read
  · cases pumped
    simp at member

end Patchbay
