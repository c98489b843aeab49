import Patchbay.Frame
import Patchbay.Proofs.Layouts

/-!
# What fits a frame

A packet with a layout has a frame exactly when the layout and the type byte stay within the limit.
How long a layout is follows from its parts.
-/

namespace Patchbay

open MessagePack (encode_map encode_string encode_bool encodeText encodeEntries_cons)

/-- The parts of a layout that are of fixed size take twelve bytes. -/
theorem Packet.layout_length (p : Packet) :
    p.layout.length = 12 + (sequenceBytes p.sequence).length + (Bytes.ofText p.tx).length +
      (MessagePack.encode (.map p.headers)).length + (MessagePack.encode p.body).length := by
  simp only [layout, announced, List.length_cons, List.length_append, Bytes.length_littleEndian]
  omega

/-- A text of medium length has a head of five bytes. -/
theorem MessagePack.encode_text_length {s : String} (long : 65536 ≤ (Bytes.ofText s).length) :
    (MessagePack.encode (.string s)).length = (Bytes.ofText s).length + 5 := by
  have head : (Head.text (Bytes.ofText s).length).put =
      0xDB :: Bytes.bigEndian 4 (Bytes.ofText s).length := by
    rw [Head.put, if_neg (by omega), if_neg (by omega), if_neg (by omega)]
  rw [encode_string, encodeText, head, List.length_append, List.length_cons,
    Bytes.length_bigEndian]
  omega

/-- An output of such a text is longer than the text by what is around it. -/
theorem MessagePack.encode_output_length {s : String} (long : 65536 ≤ (Bytes.ofText s).length) :
    (MessagePack.encode (.map [("status", .bool true), ("output", .string s)])).length =
      (Bytes.ofText s).length + 21 := by
  have text := MessagePack.encode_text_length long
  have head :
      (MessagePack.Head.map [("status", Value.bool true), ("output", .string s)].length).put =
        [0x82] := rfl
  have status : (encodeText "status").length = 7 := rfl
  have output : (encodeText "output").length = 7 := rfl
  have ok : (MessagePack.encode (.bool true)).length = 1 := rfl
  have none : MessagePack.encodeEntries [] = [] := rfl
  rw [encode_map, head, encodeEntries_cons, encodeEntries_cons, none]
  simp only [List.length_append, List.length_singleton, List.length_nil, status, output, ok, text]
  omega

namespace Packet

variable {tx s : String} {sequence : UInt32} {done : Bool}

theorem encode_done_length (done : Bool) :
    (MessagePack.encode (.map [(Header.done, .bool done)])).length = 7 := by
  cases done <;> rfl

theorem output_fits (id : (Bytes.ofText tx).length ≤ 65535)
    (long : 65536 ≤ (Bytes.ofText s).length)
    (counted : (Bytes.ofText s).length ≤ 4294967295 - 21) :
    (output tx sequence done (.string s)).Fits :=
  ⟨id, le_of_eq_of_le (encode_done_length done) (by decide),
    le_of_eq_of_le (MessagePack.encode_output_length long) (by omega)⟩

/-- What is around the id and the text in the layout of an output. -/
theorem output_layout_length (long : 65536 ≤ (Bytes.ofText s).length) :
    (output tx sequence done (.string s)).layout.length =
      (Bytes.ofText tx).length + (Bytes.ofText s).length + 45 := by
  have headers := encode_done_length done
  have body := MessagePack.encode_output_length long
  have numbered : (sequenceBytes (some sequence)).length = 5 := rfl
  rw [layout_length]
  simp only [output, bare, headers, body, numbered]
  omega

end Packet

namespace Frame

theorem encode_of_fits {p : Packet} (fits : p.Fits) :
    encode p =
      if p.layout.length + 1 ≤ limit then
        .ok (Bytes.littleEndian 4 (p.layout.length + 1) ++ packetType :: p.layout)
      else .error (.tooLarge "frame" (p.layout.length + 1) limit) := by
  rw [encode, Packet.encode_of_fits fits]
  rfl

/-- An output of a text that would fill a frame by itself has none. -/
theorem encode_long_output {tx s : String} {sequence : UInt32} {done : Bool}
    (id : (Bytes.ofText tx).length ≤ 65535) (long : limit ≤ (Bytes.ofText s).length)
    (counted : (Bytes.ofText s).length ≤ 4294967295 - 21) :
    encode (.output tx sequence done (.string s)) =
      .error
        (.tooLarge "frame" ((Bytes.ofText tx).length + (Bytes.ofText s).length + 46) limit) := by
  have text : 65536 ≤ (Bytes.ofText s).length := le_trans (by decide) long
  rw [encode_of_fits (Packet.output_fits id text counted), Packet.output_layout_length text,
    if_neg (by omega)]

end Frame

end Patchbay
