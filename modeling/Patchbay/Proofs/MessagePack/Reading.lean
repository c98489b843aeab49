import Patchbay.MessagePack.Decode
import Patchbay.Proofs.Results
import Patchbay.Proofs.MessagePack.Writing

/-!
# Values read back

The reader finds every short value again in front of whatever bytes follow its document, order and
float bits included, unless more containers nest in it than the reader may open; then it fails for
that reason and no other.
-/

namespace Patchbay

variable {α : Type}

namespace MessagePack

open Value (Countable)

/-- What a reader that may open `room` containers makes of something in which `depth` nest. -/
def within (room depth : Nat) (a : α) (rest : Bytes) : Except DocumentDefect (α × Bytes) :=
  if depth ≤ room then .ok (a, rest) else .error .tooDeep

/-! ## Texts -/

theorem readHead_put {h : Head} (fits : h.Fits) (rest : Bytes) :
    readHead (h.put ++ rest) = .ok (h, rest) := by
  rw [readHead, Head.take?_put fits]

theorem readText_append (s : String) (rest : Bytes) :
    readText (Bytes.ofText s).length (Bytes.ofText s ++ rest) = .ok (s, rest) := by
  simp only [readText, Bytes.split?_append rfl, Bytes.text?_ofText]

theorem readKey_append {key : String} (countable : Countable (Bytes.ofText key).length)
    (rest : Bytes) : readKey (encodeText key ++ rest) = .ok (key, rest) := by
  rw [encodeText, List.append_assoc, readKey,
    readHead_put (h := .text (Bytes.ofText key).length) countable]
  exact readText_append key rest

/-! ## Items and entries -/

/-- A reader that may open `room` containers reads a document back, whatever follows it. -/
def ReadsBack (readItem : Reader Value) (room : Nat) (v : Value) : Prop :=
  ∀ rest, readItem (encode v ++ rest) = within room v.depth v rest

theorem readItems_append {readItem : Reader Value} {room : Nat} {items : List Value}
    (each : ∀ v ∈ items, ReadsBack readItem room v) (found : List Value) (rest : Bytes) :
    readItems readItem found items.length (encodeItems items ++ rest) =
      within room (Value.depthItems items) (found.reverse ++ items) rest := by
  induction items generalizing found with
  | nil => simp [readItems, encodeItems, within, Value.depthItems]
  | cons v others ih =>
    rw [encodeItems_cons, List.append_assoc, List.length_cons, readItems,
      each v List.mem_cons_self, within]
    by_cases shallow : v.depth ≤ room
    · have later := ih (fun u member => each u (List.mem_cons_of_mem v member)) (v :: found)
      simpa [within, Value.depthItems, Nat.max_le, shallow] using later
    · simp [within, Value.depthItems, shallow]

theorem readEntries_append {readItem : Reader Value} {room : Nat} {entries : Fields}
    (each : ∀ entry ∈ entries,
      Countable (Bytes.ofText entry.1).length ∧ ReadsBack readItem room entry.2)
    (distinct : (entries.map Prod.fst).Nodup) (seen : Std.HashSet String)
    (fresh : ∀ entry ∈ entries, entry.1 ∉ seen) (found : Fields) (rest : Bytes) :
    readEntries readItem seen found entries.length (encodeEntries entries ++ rest) =
      within room (Value.depthEntries entries) (found.reverse ++ entries) rest := by
  induction entries generalizing seen found with
  | nil => simp [readEntries, encodeEntries, within, Value.depthEntries]
  | cons entry others ih =>
    obtain ⟨key, v⟩ := entry
    obtain ⟨countable, back⟩ := each _ List.mem_cons_self
    obtain ⟨other, distinct⟩ := List.nodup_cons.1 distinct
    have new : key ∉ seen := fresh _ List.mem_cons_self
    rw [encodeEntries_cons, List.append_assoc, List.append_assoc, List.length_cons, readEntries,
      readKey_append countable]
    have item := back (encodeEntries others ++ rest)
    by_cases shallow : v.depth ≤ room
    · -- The keys that follow differ from this one, so they stay fresh.
      have unseen : ∀ entry ∈ others, entry.1 ∉ seen.insert key := by
        intro entry member
        have apart : key ≠ entry.1 := fun same =>
          other (List.mem_map.2 ⟨entry, member, same.symm⟩)
        have before := fresh entry (List.mem_cons_of_mem _ member)
        simp [Std.HashSet.mem_insert, apart, before]
      have later := ih (fun entry member => each entry (List.mem_cons_of_mem _ member)) distinct
        (seen.insert key) unseen ((key, v) :: found)
      rw [within, if_pos shallow] at item
      simpa [new, item, within, Value.depthEntries, Nat.max_le, shallow] using later
    · rw [within, if_neg shallow] at item
      simp [new, item, within, Value.depthEntries, shallow]

/-! ## Values -/

theorem readInt_toInt (i : Int64) : readInt i.toInt = .ok (.int i) := by
  have upper : i.toInt < 0x8000000000000000 := i.toInt_lt
  rw [readInt, if_pos upper, Int64.ofInt_toInt]

/-- A reader with any room reads every short value back, unless it nests too deep for it. -/
theorem readValue_encode {v : Value} (distinct : v.KeysDistinct) (short : v.Short) (room : Nat) :
    ReadsBack (readValue room) room v := by
  intro rest
  induction v using Value.induct generalizing room rest with
  | null =>
    rw [encode_null, readValue, readHead_put (h := .nil) trivial]
    simp [within, Value.depth]
  | bool b =>
    rw [encode_bool, readValue, readHead_put (h := .bool b) trivial]
    simp [within, Value.depth]
  | int i =>
    have fits : (Head.int i.toInt).Fits := ⟨i.le_toInt, Int.lt_trans i.toInt_lt (by decide)⟩
    rw [encode_int, readValue, readHead_put fits]
    simp [within, Value.depth, readInt_toInt]
  | float x =>
    rw [encode_float, readValue, readHead_put (h := .float x) trivial]
    simp [within, Value.depth]
  | string s =>
    rw [encode_string, encodeText, List.append_assoc, readValue,
      readHead_put (h := .text (Bytes.ofText s).length) short]
    simp [within, Value.depth, readText_append]
  | array items ih =>
    rw [encode_array, List.append_assoc, readValue,
      readHead_put (h := .array items.length) short.1]
    cases room with
    | zero => simp [within, Value.depth]
    | succ room =>
      have distinct := Value.keysDistinctItems_iff.1 distinct
      have short := Value.shortItems_iff.1 short.2
      have inner := readItems_append
        (fun v member => ih v member (distinct v member) (short v member) room) [] rest
      simp only [ok_bind, inner]
      by_cases shallow : Value.depthItems items ≤ room <;> simp [within, Value.depth, shallow]
  | map entries ih =>
    rw [encode_map, List.append_assoc, readValue,
      readHead_put (h := .map entries.length) short.1]
    cases room with
    | zero => simp [within, Value.depth]
    | succ room =>
      obtain ⟨keys, distinct⟩ := distinct
      have distinct := Value.keysDistinctEntries_iff.1 distinct
      have short := Value.shortEntries_iff.1 short.2
      have inner := readEntries_append
        (fun entry member => ⟨(short entry member).1,
          ih entry member (distinct entry member) (short entry member).2 room⟩)
        keys ∅ (by simp) [] rest
      simp only [ok_bind, inner]
      by_cases shallow : Value.depthEntries entries ≤ room <;> simp [within, Value.depth, shallow]

theorem decode_encode {v : Value} (distinct : v.KeysDistinct) (short : v.Short) :
    decode (encode v) = if v.depth ≤ depthLimit then .ok v else .error .tooDeep := by
  have read := readValue_encode distinct short depthLimit []
  rw [List.append_nil] at read
  rw [decode, read, within]
  split <;> simp

/-! ## Main result -/

/-- A short value is read back from its document as it was, unless more than 1023 containers nest in
it. -/
theorem value_round_trip {v : Value} (distinct : v.KeysDistinct) (short : v.Short) :
    (v.depth ≤ 1023 → decode (encode v) = .ok v) ∧
      (1023 < v.depth → decode (encode v) = .error .tooDeep) := by
  rw [decode_encode distinct short]
  exact ⟨fun shallow => if_pos shallow, fun deep => if_neg (Nat.not_le_of_lt deep)⟩

theorem value_round_trip_nested :
    decode (encode (.map [("b", .array [.int (-1), .float ⟨0⟩]), ("a", .map [])])) =
      .ok (.map [("b", .array [.int (-1), .float ⟨0⟩]), ("a", .map [])]) := by
  refine (value_round_trip ?_ ?_).1 ?_
  · simp [Value.KeysDistinct, Value.KeysDistinctEntries, Value.KeysDistinctItems]
  · simp [Value.Short, Value.ShortEntries, Value.ShortItems, Bytes.ofText]
    decide
  · decide

end MessagePack

end Patchbay
