import Patchbay.MessagePack.Encode
import Patchbay.Proofs.Values
import Patchbay.Proofs.MessagePack.Heads

/-!
# What is written

The writer pushes onto a buffer; here is the document of each value as a byte string, and how its
length bounds what is inside the value.
-/

namespace Patchbay.MessagePack

/-- A text with its head. -/
def encodeText (s : String) : Bytes :=
  (Head.text (Bytes.ofText s).length).put ++ Bytes.ofText s

/-- The documents of items, one after the other. -/
def encodeItems (items : List Value) : Bytes := items.flatMap encode

/-- Each entry is the text of its key and the document of its value. -/
def encodeEntries (entries : Fields) : Bytes :=
  entries.flatMap fun entry => encodeText entry.1 ++ encode entry.2

theorem pushText_toList (out : Array UInt8) (s : String) :
    (pushText out s).toList = out.toList ++ encodeText s := by
  simp [pushText, encodeText, Bytes.ofText]

mutual

/-- What was pushed before stays in front. -/
theorem push_toList (out : Array UInt8) (v : Value) :
    (push out v).toList = out.toList ++ encode v := by
  cases v with
  | null | bool b | int i | float x => simp [encode, push]
  | string s => simp [encode, push, pushText_toList]
  | array items => simp [encode, push, pushItems_toList _ items]
  | map entries => simp [encode, push, pushEntries_toList _ entries]

theorem pushItems_toList (out : Array UInt8) (items : List Value) :
    (pushItems out items).toList = out.toList ++ encodeItems items := by
  cases items with
  | nil => simp [pushItems, encodeItems]
  | cons v rest =>
    rw [pushItems, pushItems_toList _ rest, push_toList _ v]
    simp [encodeItems]

theorem pushEntries_toList (out : Array UInt8) (entries : Fields) :
    (pushEntries out entries).toList = out.toList ++ encodeEntries entries := by
  cases entries with
  | nil => simp [pushEntries, encodeEntries]
  | cons entry rest =>
    obtain ⟨key, v⟩ := entry
    rw [pushEntries, pushEntries_toList _ rest, push_toList _ v, pushText_toList]
    simp [encodeEntries]

end

theorem encode_null : encode .null = Head.nil.put := by simp [encode, push]

theorem encode_bool (b : Bool) : encode (.bool b) = (Head.bool b).put := by simp [encode, push]

theorem encode_int (i : Int64) : encode (.int i) = (Head.int i.toInt).put := by
  simp [encode, push]

theorem encode_float (x : Binary64) : encode (.float x) = (Head.float x).put := by
  simp [encode, push]

theorem encode_string (s : String) : encode (.string s) = encodeText s := by
  simp [encode, push, pushText_toList]

theorem encode_array (items : List Value) :
    encode (.array items) = (Head.array items.length).put ++ encodeItems items := by
  simp [encode, push, pushItems_toList]

theorem encode_map (entries : Fields) :
    encode (.map entries) = (Head.map entries.length).put ++ encodeEntries entries := by
  simp [encode, push, pushEntries_toList]

theorem encodeItems_cons (v : Value) (rest : List Value) :
    encodeItems (v :: rest) = encode v ++ encodeItems rest := rfl

theorem encodeEntries_cons (key : String) (v : Value) (rest : Fields) :
    encodeEntries ((key, v) :: rest) = encodeText key ++ encode v ++ encodeEntries rest := rfl

/-! ## Lengths -/

theorem encodeText_length (s : String) :
    (Bytes.ofText s).length < (encodeText s).length ∧
      (encodeText s).length ≤ (Bytes.ofText s).length + 9 := by
  obtain ⟨most, least⟩ := Head.put_length (.text (Bytes.ofText s).length)
  have := least rfl
  rw [encodeText, List.length_append]
  omega

/-- Every document has a byte. -/
theorem encode_length_pos (v : Value) : 0 < (encode v).length := by
  cases v with
  | null => exact (Head.put_length .nil).2 rfl
  | bool b => rw [encode_bool]; exact (Head.put_length _).2 rfl
  | int i => rw [encode_int]; exact (Head.put_length _).2 rfl
  | float x => rw [encode_float]; exact (Head.put_length _).2 rfl
  | string s =>
    have := (encodeText_length s).1
    rw [encode_string]
    omega
  | array items =>
    have := (Head.put_length (.array items.length)).2 rfl
    rw [encode_array, List.length_append]
    omega
  | map entries =>
    have := (Head.put_length (.map entries.length)).2 rfl
    rw [encode_map, List.length_append]
    omega

theorem encodeItems_length (items : List Value) :
    items.length ≤ (encodeItems items).length ∧
      ∀ v ∈ items, (encode v).length ≤ (encodeItems items).length := by
  induction items with
  | nil => simp
  | cons v rest ih =>
    have := encode_length_pos v
    rw [encodeItems_cons, List.length_append, List.length_cons]
    refine ⟨by omega, fun u member => ?_⟩
    rcases List.mem_cons.1 member with rfl | later
    · omega
    · have := ih.2 u later
      omega

theorem encodeEntries_length (entries : Fields) :
    entries.length ≤ (encodeEntries entries).length ∧
      ∀ entry ∈ entries, (Bytes.ofText entry.1).length ≤ (encodeEntries entries).length ∧
        (encode entry.2).length ≤ (encodeEntries entries).length := by
  induction entries with
  | nil => simp
  | cons entry rest ih =>
    obtain ⟨key, v⟩ := entry
    have := (encodeText_length key).1
    rw [encodeEntries_cons, List.length_append, List.length_append, List.length_cons]
    refine ⟨by omega, fun other member => ?_⟩
    rcases List.mem_cons.1 member with rfl | later
    · dsimp only
      omega
    · have := ih.2 other later
      omega

/-- A value is short when its document is. -/
theorem short_of_encode_length {v : Value} (countable : Value.Countable (encode v).length) :
    v.Short := by
  induction v using Value.induct with
  | null | bool _ | int _ | float _ => trivial
  | string s =>
    have := (encodeText_length s).1
    rw [encode_string] at countable
    exact Nat.lt_trans this countable
  | array items ih =>
    obtain ⟨count, each⟩ := encodeItems_length items
    rw [encode_array, List.length_append] at countable
    refine ⟨by omega, Value.shortItems_iff.2 fun v member => ih v member ?_⟩
    have := each v member
    omega
  | map entries ih =>
    obtain ⟨count, each⟩ := encodeEntries_length entries
    rw [encode_map, List.length_append] at countable
    refine ⟨by omega, Value.shortEntries_iff.2 fun entry member => ?_⟩
    obtain ⟨key, inner⟩ := each entry member
    exact ⟨by omega, ih entry member (by omega)⟩

end Patchbay.MessagePack
