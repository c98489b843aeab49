import Patchbay.Proofs.MessagePack.Grammar

/-!
# Where a document ends

A document tells by itself where it ends, however its heads are spelled. A piece of its front is short
of bytes, and that is what the reader reports of it; bytes behind it are left over, and they are
counted. So no document stands at the front of another one, and an array or a map that is cut off never
passes for a shorter one.
-/

namespace Patchbay.MessagePack

variable {α : Type} {piece missing : Bytes}

/-- Of any piece of the front of what has the form, with bytes missing, the reader reports that it ends
early. -/
def Misses (read : Reader α) (Form : Bytes → α → Prop) : Prop :=
  ∀ whole a, Form whole a → ∀ piece missing, whole = piece ++ missing → missing ≠ [] →
    read piece = .error .truncated

/-- The cut through two things goes through the first one, or it lies behind it. -/
theorem cut_append {front back : Bytes} (whole : front ++ back = piece ++ missing) :
    (∃ others, others ≠ [] ∧ front = piece ++ others) ∨
      ∃ inner, piece = front ++ inner ∧ back = inner ++ missing := by
  rcases List.append_eq_append_iff.1 whole with ⟨inner, behind, rest⟩ | ⟨others, before, rest⟩
  · exact .inr ⟨inner, behind, rest⟩
  · by_cases none : others = []
    · subst none
      rw [List.append_nil] at before
      exact .inr ⟨[], by rw [before, List.append_nil], rest.symm⟩
    · exact .inl ⟨others, none, before⟩

/-! ## Heads and texts -/

theorem misses_head : Misses readHead Head.Spells := by
  rintro whole h spelled piece missing rfl left
  cases found : Head.take? piece with
  | none => rw [readHead, found]
  | some read =>
    -- a head in the piece would be the head of the whole, which ends where the whole does
    obtain ⟨head, rest⟩ := read
    obtain ⟨front, inside, rfl⟩ := Head.take?_eq_some_iff.1 found
    have early : Head.take? (front ++ (rest ++ missing)) = some (head, rest ++ missing) := inside.read
    have late : Head.take? (front ++ rest ++ missing ++ []) = some (h, []) := spelled.read
    rw [List.append_nil, List.append_assoc, early] at late
    simp only [Option.some.injEq, Prod.mk.injEq, List.append_eq_nil_iff] at late
    exact absurd late.2.2 left

theorem readText_short {length : Nat} (short : piece.length < length) :
    readText length piece = .error .truncated := by
  rw [readText, Bytes.split?_eq_none_iff.2 short]

/-- The cut through a text leaves fewer bytes of it than were announced. -/
theorem readText_cut {s : String} (whole : Bytes.ofText s = piece ++ missing)
    (some : missing ≠ []) : readText (Bytes.ofText s).length piece = .error .truncated := by
  apply readText_short
  rw [whole, List.length_append]
  exact Nat.lt_add_of_pos_right (List.length_pos_iff.2 some)

theorem misses_key : Misses readKey KeyForm := by
  rintro whole key form piece missing same some
  cases form with
  | text head | binary head =>
    rcases cut_append same with ⟨others, left, rfl⟩ | ⟨inner, rfl, text⟩
    · rw [readKey, misses_head _ _ head _ _ rfl left, error_bind]
    · rw [readKey, reads_head.append head, ok_bind]
      exact readText_cut text some

/-! ## Items and entries -/

theorem misses_items {readItem : Reader Value} {Form : Bytes → Value → Prop}
    (reads : Reads readItem Form) (misses : Misses readItem Form) {parts : List Bytes}
    {items : List Value} (each : List.Forall₂ Form parts items) (found : List Value)
    (same : parts.flatten = piece ++ missing) (some : missing ≠ []) :
    readItems readItem found items.length piece = .error .truncated := by
  induction each generalizing found piece with
  | nil => exact absurd (List.append_eq_nil_iff.1 same.symm).2 some
  | @cons part v parts items form each ih =>
    rw [List.length_cons, readItems]
    rcases cut_append same with ⟨others, left, rfl⟩ | ⟨inner, rfl, rest⟩
    · rw [misses _ _ form _ _ rfl left, error_bind]
    · rw [reads.append form, ok_bind]
      exact ih (v :: found) rest

theorem misses_entries {readItem : Reader Value} {Form : Bytes → Value → Prop}
    (reads : Reads readItem Form) (misses : Misses readItem Form) {parts : List Bytes}
    {entries : Fields} (each : List.Forall₂ (Keyed Form) parts entries)
    {seen : Std.HashSet String} (fresh : Fresh seen entries) (found : Fields)
    (same : parts.flatten = piece ++ missing) (some : missing ≠ []) :
    readEntries readItem seen found entries.length piece = .error .truncated := by
  induction each generalizing seen found piece with
  | nil => exact absurd (List.append_eq_nil_iff.1 same.symm).2 some
  | @cons part entry parts entries form each ih =>
    obtain ⟨keyed, form⟩ := form
    obtain ⟨new, fresh⟩ := fresh_cons.1 fresh
    rw [List.flatten_cons, List.append_assoc] at same
    rw [List.length_cons, readEntries]
    rcases cut_append same with ⟨others, left, rfl⟩ | ⟨inner, rfl, rest⟩
    · rw [misses_key _ _ keyed _ _ rfl left, error_bind]
    · rw [reads_key.append keyed, ok_bind]
      dsimp only
      rw [if_neg (by simpa using new)]
      rcases cut_append rest with ⟨others, left, rfl⟩ | ⟨later, rfl, behind⟩
      · rw [misses _ _ form _ _ rfl left, error_bind]
      · rw [reads.append form, ok_bind]
        exact ih fresh _ behind

/-! ## Values -/

/-- What stands in an array or a map is read by a reader that may open one container less. -/
theorem misses_value_step {room : Nat}
    (inner : ∀ lower, room = lower + 1 → Misses (readValue lower) (Admits lower)) :
    Misses (readValue room) (Admits room) := by
  rintro whole v ⟨document, distinct, shallow⟩ piece missing same some
  -- a cut through the head is found there
  have head_cut {front others : Bytes} {h : Head} (spelled : Head.Spells front h)
      (left : others ≠ []) (cut : front = piece ++ others) :
      readValue room piece = .error .truncated := by
    rw [readValue, misses_head _ _ spelled _ _ cut left, error_bind]
  cases document with
  | null head | bool head | int head | float head => exact head_cut head some same
  | string head =>
    rcases cut_append same with ⟨others, left, cut⟩ | ⟨body, rfl, text⟩
    · exact head_cut head left cut
    · rw [readValue, reads_head.append head, ok_bind]
      dsimp only
      rw [readText_cut text some, error_bind]
  | @array front parts items head each =>
    rcases cut_append same with ⟨others, left, cut⟩ | ⟨body, rfl, rest⟩
    · exact head_cut head left cut
    · cases room with
      | zero => cases shallow
      | succ room =>
        have good := Value.keysDistinctItems_iff.1 distinct
        have room_left := Value.depthItems_le_iff.1 (Nat.le_of_succ_le_succ shallow)
        have admitted : List.Forall₂ (Admits room) parts items :=
          forall₂_and_right.2 ⟨each, fun v member => ⟨good v member, room_left v member⟩⟩
        rw [readValue, reads_head.append head, ok_bind]
        dsimp only
        rw [misses_items (reads_value room) (inner room rfl) admitted [] rest some, error_bind]
  | @map front parts entries head each =>
    rcases cut_append same with ⟨others, left, cut⟩ | ⟨body, rfl, rest⟩
    · exact head_cut head left cut
    · cases room with
      | zero => cases shallow
      | succ room =>
        obtain ⟨keys, distinct⟩ := distinct
        have good := Value.keysDistinctEntries_iff.1 distinct
        have room_left := Value.depthEntries_le_iff.1 (Nat.le_of_succ_le_succ shallow)
        have admitted : List.Forall₂ (Keyed (Admits room)) parts entries :=
          (forall₂_and_right.2 ⟨each, fun entry member =>
            ⟨good entry member, room_left entry member⟩⟩).imp fun _ _ => keyed_iff.2
        have fresh : Fresh ∅ entries := ⟨keys, fun _ _ => by simp⟩
        rw [readValue, reads_head.append head, ok_bind]
        dsimp only
        rw [misses_entries (reads_value room) (inner room rfl) admitted fresh [] rest some,
          error_bind]

theorem misses_value (room : Nat) : Misses (readValue room) (Admits room) := by
  induction room with
  | zero => exact misses_value_step nofun
  | succ room ih =>
    refine misses_value_step fun lower below => ?_
    cases below
    exact ih

/-! ## Main result -/

/-- Bytes that are read as a value are read so whole only, whatever forms their heads have. Every piece
of their front but the whole is refused because it ends early. With other bytes behind them they are
refused because these are left over, and the report counts them. -/
theorem decode_whole {bytes : Bytes} {v : Value} (decoded : decode bytes = .ok v) :
    (∀ piece, piece <+: bytes → piece ≠ bytes → decode piece = .error .truncated) ∧
      ∀ s, s ≠ [] → decode (bytes ++ s) = .error (.trailing s.length) ∧
        (DocumentDefect.trailing s.length).message = toString s.length ++ " trailing bytes" := by
  have admitted : Admits depthLimit bytes v := (decode_eq_ok_iff bytes v).1 decoded
  constructor
  · rintro piece ⟨missing, rfl⟩ proper
    have some : missing ≠ [] := by
      rintro rfl
      exact proper (List.append_nil piece).symm
    rw [decode, misses_value depthLimit _ _ admitted _ _ rfl some, error_bind]
  · intro s some
    refine ⟨?_, rfl⟩
    rw [decode, (reads_value depthLimit).append admitted, ok_bind]
    exact if_neg (by simpa using some)

/-- An array of two items whose heads are wider than they need be: without its last byte it is not the
array of one item, and a byte behind it is left over. -/
theorem decode_whole_array :
    decode [0xDC, 0x00, 0x02, 0xC0, 0xCC, 0x05] = .ok (.array [.null, .int 5]) ∧
      decode [0xDC, 0x00, 0x02, 0xC0, 0xCC] = .error .truncated ∧
      decode [0xDC, 0x00, 0x02, 0xC0, 0xCC, 0x05, 0xC0] = .error (.trailing 1) := by
  have decoded : decode [0xDC, 0x00, 0x02, 0xC0, 0xCC, 0x05] = .ok (.array [.null, .int 5]) := by
    simp [decode, depthLimit, readValue, readHead, readItems, readInt, Head.take?, Head.field?,
      Bytes.split?, Bytes.ofBigEndian]
  obtain ⟨cut, longer⟩ := decode_whole decoded
  exact ⟨decoded, cut _ ⟨[0x05], rfl⟩ (by decide), (longer [0xC0] (by decide)).1⟩

end Patchbay.MessagePack
