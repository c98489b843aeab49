import Patchbay.Proofs.MessagePack.Reading

/-!
# Documents tell values apart

A value is written as its head and what the head announces. No two heads begin with the same bytes, so
the bytes of a document say which value it is of and where it ends, whatever stands behind it. This is
said of the writer alone: it holds of values that are too deep for the reader, and two maps whose
entries stand in different orders are different values here.
-/

namespace Patchbay.MessagePack

variable {s t : Bytes}

/-- The head that a value is written behind. -/
def headOf : Value → Head
  | .null => .nil
  | .bool b => .bool b
  | .int i => .int i.toInt
  | .float x => .float x
  | .string s => .text (Bytes.ofText s).length
  | .array items => .array items.length
  | .map entries => .map entries.length

/-- What is written behind the head. -/
def bodyOf : Value → Bytes
  | .string s => Bytes.ofText s
  | .array items => encodeItems items
  | .map entries => encodeEntries entries
  | _ => []

theorem encode_eq_head_append (v : Value) : encode v = (headOf v).put ++ bodyOf v := by
  cases v with
  | null => simp [encode_null, headOf, bodyOf]
  | bool b => simp [encode_bool, headOf, bodyOf]
  | int i => simp [encode_int, headOf, bodyOf]
  | float x => simp [encode_float, headOf, bodyOf]
  | string s => rw [encode_string, encodeText, headOf, bodyOf]
  | array items => rw [encode_array, headOf, bodyOf]
  | map entries => rw [encode_map, headOf, bodyOf]

theorem headOf_fits {v : Value} (short : v.Short) : (headOf v).Fits := by
  cases v with
  | null | bool b | float x => trivial
  | int i => exact ⟨i.le_toInt, Int.lt_trans i.toInt_lt (by decide)⟩
  | string s => exact short
  | array items => exact short.1
  | map entries => exact short.1

/-! ## Heads and texts -/

/-- No head stands at the front of another one. -/
theorem Head.put_append_inj {h k : Head} (first : h.Fits) (second : k.Fits)
    (same : h.put ++ s = k.put ++ t) : h = k ∧ s = t := by
  have read := Head.take?_put first s
  rw [same, Head.take?_put second t] at read
  cases read
  exact ⟨rfl, rfl⟩

/-- Two texts of one length in front of whatever bytes. -/
theorem ofText_append_inj {x y : String} (length : (Bytes.ofText x).length = (Bytes.ofText y).length)
    (same : Bytes.ofText x ++ s = Bytes.ofText y ++ t) : x = y ∧ s = t := by
  obtain ⟨texts, rest⟩ := List.append_inj same length
  have read := Bytes.text?_ofText x
  rw [texts, Bytes.text?_ofText y] at read
  cases read
  exact ⟨rfl, rest⟩

theorem encodeText_append_inj {x y : String} (first : Value.Countable (Bytes.ofText x).length)
    (second : Value.Countable (Bytes.ofText y).length)
    (same : encodeText x ++ s = encodeText y ++ t) : x = y ∧ s = t := by
  rw [encodeText, encodeText, List.append_assoc, List.append_assoc] at same
  obtain ⟨heads, rest⟩ := Head.put_append_inj (h := .text _) (k := .text _) first second same
  injection heads with length
  exact ofText_append_inj length rest

/-! ## Items and entries -/

/-- No other short value is written with the same bytes in front. -/
def Distinguished (a : Value) : Prop :=
  ∀ b, b.Short → ∀ s t, encode a ++ s = encode b ++ t → a = b ∧ s = t

theorem encodeItems_append_inj {as bs : List Value} (each : ∀ a ∈ as, Distinguished a)
    (short : ∀ b ∈ bs, b.Short) (length : as.length = bs.length)
    (same : encodeItems as ++ s = encodeItems bs ++ t) : as = bs ∧ s = t := by
  induction as generalizing bs with
  | nil =>
    obtain rfl := List.length_eq_zero_iff.1 length.symm
    exact ⟨rfl, same⟩
  | cons a as ih =>
    cases bs with
    | nil => cases length
    | cons b bs =>
      rw [encodeItems_cons, encodeItems_cons, List.append_assoc, List.append_assoc] at same
      obtain ⟨rfl, rest⟩ := each a List.mem_cons_self b (short b List.mem_cons_self) _ _ same
      obtain ⟨rfl, rfl⟩ := ih (fun a member => each a (List.mem_cons_of_mem _ member))
        (fun b member => short b (List.mem_cons_of_mem _ member)) (Nat.succ.inj length) rest
      exact ⟨rfl, rfl⟩

theorem encodeEntries_append_inj {as bs : Fields}
    (each : ∀ a ∈ as, Value.Countable (Bytes.ofText a.1).length ∧ Distinguished a.2)
    (short : ∀ b ∈ bs, Value.Countable (Bytes.ofText b.1).length ∧ b.2.Short)
    (length : as.length = bs.length)
    (same : encodeEntries as ++ s = encodeEntries bs ++ t) : as = bs ∧ s = t := by
  induction as generalizing bs with
  | nil =>
    obtain rfl := List.length_eq_zero_iff.1 length.symm
    exact ⟨rfl, same⟩
  | cons a as ih =>
    cases bs with
    | nil => cases length
    | cons b bs =>
      obtain ⟨key, a⟩ := a
      obtain ⟨other, b⟩ := b
      obtain ⟨countable, told⟩ := each _ List.mem_cons_self
      obtain ⟨countable', short_b⟩ := short _ List.mem_cons_self
      simp only [encodeEntries_cons, List.append_assoc] at same
      obtain ⟨rfl, values⟩ := encodeText_append_inj countable countable' same
      obtain ⟨rfl, rest⟩ := told b short_b _ _ values
      obtain ⟨rfl, rfl⟩ := ih (fun a member => each a (List.mem_cons_of_mem _ member))
        (fun b member => short b (List.mem_cons_of_mem _ member)) (Nat.succ.inj length) rest
      exact ⟨rfl, rfl⟩

/-! ## Values -/

/-- The front of two documents that begin alike. -/
theorem heads_of_encode {a b : Value} (short_a : a.Short) (short_b : b.Short)
    (same : encode a ++ s = encode b ++ t) :
    headOf a = headOf b ∧ bodyOf a ++ s = bodyOf b ++ t := by
  rw [encode_eq_head_append, encode_eq_head_append, List.append_assoc, List.append_assoc] at same
  exact Head.put_append_inj (headOf_fits short_a) (headOf_fits short_b) same

/-- It is enough to tell a value apart from those that are written behind the same head. -/
theorem distinguished_of_head {a : Value} (short : a.Short)
    (told : ∀ b, b.Short → headOf a = headOf b → ∀ s t, bodyOf a ++ s = bodyOf b ++ t →
      a = b ∧ s = t) : Distinguished a := by
  intro b short_b s t same
  obtain ⟨heads, rest⟩ := heads_of_encode short short_b same
  exact told b short_b heads s t rest

/-- The head of the one value says of what kind and how long the other one is. -/
theorem distinguished_of_short {a : Value} (short : a.Short) : Distinguished a := by
  induction a using Value.induct with
  | null =>
    refine distinguished_of_head short fun b _ heads s t rest => ?_
    cases b with
    | null => exact ⟨rfl, rest⟩
    | _ => cases heads
  | bool x =>
    refine distinguished_of_head short fun b _ heads s t rest => ?_
    cases b with
    | bool y =>
      cases heads
      exact ⟨rfl, rest⟩
    | _ => cases heads
  | int i =>
    refine distinguished_of_head short fun b _ heads s t rest => ?_
    cases b with
    | int j =>
      injection heads with numbers
      obtain rfl := Int64.toInt_inj.1 numbers
      exact ⟨rfl, rest⟩
    | _ => cases heads
  | float x =>
    refine distinguished_of_head short fun b _ heads s t rest => ?_
    cases b with
    | float y =>
      cases heads
      exact ⟨rfl, rest⟩
    | _ => cases heads
  | string x =>
    refine distinguished_of_head short fun b _ heads s t rest => ?_
    cases b with
    | string y =>
      injection heads with length
      obtain ⟨rfl, rfl⟩ := ofText_append_inj length rest
      exact ⟨rfl, rfl⟩
    | _ => cases heads
  | array as ih =>
    refine distinguished_of_head short fun b short_b heads s t rest => ?_
    cases b with
    | array bs =>
      injection heads with length
      have each := Value.shortItems_iff.1 short.2
      have others := Value.shortItems_iff.1 short_b.2
      obtain ⟨rfl, rfl⟩ := encodeItems_append_inj
        (fun a member => ih a member (each a member)) others length rest
      exact ⟨rfl, rfl⟩
    | _ => cases heads
  | map as ih =>
    refine distinguished_of_head short fun b short_b heads s t rest => ?_
    cases b with
    | map bs =>
      injection heads with length
      have each := Value.shortEntries_iff.1 short.2
      have others := Value.shortEntries_iff.1 short_b.2
      obtain ⟨rfl, rfl⟩ := encodeEntries_append_inj
        (fun a member => ⟨(each a member).1, ih a member (each a member).2⟩) others length rest
      exact ⟨rfl, rfl⟩
    | _ => cases heads

/-! ## Main result -/

/-- Whatever stands behind the documents of two short values, of any depth, equal bytes are of equal
values, with the same bytes behind. In particular no two short values have one document. -/
theorem encode_append_eq_iff {a b : Value} (short_a : a.Short) (short_b : b.Short) :
    (∀ s t, encode a ++ s = encode b ++ t ↔ a = b ∧ s = t) ∧ (encode a = encode b ↔ a = b) := by
  have told : ∀ s t, encode a ++ s = encode b ++ t ↔ a = b ∧ s = t := by
    intro s t
    constructor
    · exact distinguished_of_short short_a b short_b s t
    · rintro ⟨rfl, rfl⟩
      rfl
  refine ⟨told, ?_⟩
  simpa using told [] []

/-- The two zeros inside 1024 arrays: the reader refuses both documents as too deep, and still their bytes
are different whatever stands behind them. -/
theorem encode_append_eq_iff_zeros :
    let deep (negative : Bool) : Value := .nest 1024 (.float (Binary64.zero negative))
    decode (encode (deep false)) = .error .tooDeep ∧ decode (encode (deep true)) = .error .tooDeep ∧
      ∀ s t, encode (deep false) ++ s ≠ encode (deep true) ++ t := by
  intro deep
  have short (negative : Bool) : (deep negative).Short := Value.nest_short trivial
  have refused (negative : Bool) : decode (encode (deep negative)) = .error .tooDeep := by
    have distinct : (deep negative).KeysDistinct := Value.nest_keysDistinct trivial
    rw [decode_encode distinct (short negative), Value.nest_depth]
    rfl
  refine ⟨refused false, refused true, fun s t same => ?_⟩
  have equal := (((encode_append_eq_iff (short false) (short true)).1 s t).1 same).1
  injection Value.nest_inj equal with zeros
  exact absurd zeros (by decide)

end Patchbay.MessagePack
