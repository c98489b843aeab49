import Mathlib.Data.List.Forall2
import Patchbay.Proofs.MessagePack.Reading
import Patchbay.Proofs.MessagePack.Spelling

/-!
# What is a document

The documents of a value, whatever forms their heads have. The reader reads a value from its
documents and from no other bytes, provided that no map in it has a key twice and that not too many
containers nest in it.
-/

namespace Patchbay.MessagePack

variable {α : Type}

/-! ## The grammar -/

/-- The bytes of a key: a text, or bytes that are one. -/
inductive KeyForm : Bytes → String → Prop where
  | text {front : Bytes} {key : String}
      (head : Head.Spells front (.text (Bytes.ofText key).length)) :
      KeyForm (front ++ Bytes.ofText key) key
  | binary {front : Bytes} {key : String}
      (head : Head.Spells front (.binary (Bytes.ofText key).length)) :
      KeyForm (front ++ Bytes.ofText key) key

mutual

/-- These bytes are a document of this value. -/
inductive Document : Bytes → Value → Prop where
  | null {front : Bytes} (head : Head.Spells front .nil) : Document front .null
  | bool {front : Bytes} {b : Bool} (head : Head.Spells front (.bool b)) :
      Document front (.bool b)
  | int {front : Bytes} {i : Int64} (head : Head.Spells front (.int i.toInt)) :
      Document front (.int i)
  | float {front : Bytes} {x : Binary64} (head : Head.Spells front (.float x)) :
      Document front (.float x)
  | string {front : Bytes} {s : String}
      (head : Head.Spells front (.text (Bytes.ofText s).length)) :
      Document (front ++ Bytes.ofText s) (.string s)
  | array {front : Bytes} {parts : List Bytes} {items : List Value}
      (head : Head.Spells front (.array items.length))
      (each : List.Forall₂ Document parts items) :
      Document (front ++ parts.flatten) (.array items)
  | map {front : Bytes} {parts : List Bytes} {entries : Fields}
      (head : Head.Spells front (.map entries.length))
      (each : List.Forall₂ EntryForm parts entries) :
      Document (front ++ parts.flatten) (.map entries)

/-- The bytes of an entry: its key and a document of its value. -/
inductive EntryForm : Bytes → String × Value → Prop where
  | entry {front back : Bytes} {key : String} {v : Value} (keyed : KeyForm front key)
      (document : Document back v) : EntryForm (front ++ back) (key, v)

end

/-! ## Readers and forms -/

/-- The reader reads what has the form, and nothing else, whatever bytes follow. -/
def Reads (read : Reader α) (Form : Bytes → α → Prop) : Prop :=
  ∀ bytes a rest, read bytes = .ok (a, rest) ↔ ∃ front, Form front a ∧ bytes = front ++ rest

theorem Reads.append {read : Reader α} {Form : Bytes → α → Prop} (reads : Reads read Form)
    {front : Bytes} {a : α} (form : Form front a) (rest : Bytes) :
    read (front ++ rest) = .ok (a, rest) :=
  (reads _ _ _).2 ⟨front, form, rfl⟩

theorem reads_head : Reads readHead Head.Spells := by
  intro bytes h rest
  rw [← Head.take?_eq_some_iff, readHead]
  cases Head.take? bytes with
  | none => simp
  | some read => simp

theorem readText_eq_ok_iff {length : Nat} {bytes rest : Bytes} {s : String} :
    readText length bytes = .ok (s, rest) ↔
      (Bytes.ofText s).length = length ∧ bytes = Bytes.ofText s ++ rest := by
  constructor
  · intro read
    unfold readText at read
    split at read
    · cases read
    · next front others split =>
      obtain ⟨rfl, width⟩ := Bytes.split?_eq_some_iff.1 split
      split at read
      · next text valid =>
        cases read
        rw [← Bytes.text?_eq_some_iff.1 valid]
        exact ⟨width, rfl⟩
      · cases read
  · rintro ⟨rfl, rfl⟩
    exact readText_append s rest

theorem reads_key : Reads readKey KeyForm := by
  intro bytes key rest
  constructor
  · intro read
    rw [readKey, bind_eq_ok_iff] at read
    obtain ⟨⟨head, others⟩, first, read⟩ := read
    obtain ⟨front, spelled, rfl⟩ := (reads_head _ _ _).1 first
    cases head with
    | text length =>
      obtain ⟨rfl, rfl⟩ := readText_eq_ok_iff.1 read
      exact ⟨_, .text spelled, (List.append_assoc ..).symm⟩
    | binary length =>
      obtain ⟨rfl, rfl⟩ := readText_eq_ok_iff.1 read
      exact ⟨_, .binary spelled, (List.append_assoc ..).symm⟩
    | _ => cases read
  · rintro ⟨front, form, rfl⟩
    cases form with
    | text head | binary head =>
      rw [List.append_assoc, readKey, reads_head.append head]
      exact readText_append key rest

/-! ## Items and entries -/

theorem readItems_eq_ok_iff {readItem : Reader Value} {Form : Bytes → Value → Prop}
    (reads : Reads readItem Form) {count : Nat} {found all : List Value} {bytes rest : Bytes} :
    readItems readItem found count bytes = .ok (all, rest) ↔
      ∃ parts items, List.Forall₂ Form parts items ∧ items.length = count ∧
        all = found.reverse ++ items ∧ bytes = parts.flatten ++ rest := by
  induction count generalizing found bytes with
  | zero =>
    constructor
    · intro read
      cases read
      exact ⟨[], [], .nil, rfl, (List.append_nil _).symm, rfl⟩
    · rintro ⟨parts, items, each, length, rfl, rfl⟩
      obtain rfl := List.length_eq_zero_iff.1 length
      cases each
      simp [readItems]
  | succ count ih =>
    constructor
    · intro read
      rw [readItems, bind_eq_ok_iff] at read
      obtain ⟨⟨v, others⟩, first, read⟩ := read
      obtain ⟨front, form, rfl⟩ := (reads _ _ _).1 first
      obtain ⟨parts, items, each, rfl, rfl, rfl⟩ := ih.1 read
      exact ⟨front :: parts, v :: items, .cons form each, rfl, by simp, by simp⟩
    · rintro ⟨parts, items, each, length, rfl, rfl⟩
      cases each with
      | nil => cases length
      | @cons front v parts items form each =>
        rw [List.flatten_cons, List.append_assoc, readItems, reads.append form]
        exact ih.2 ⟨parts, items, each, Nat.succ.inj length, by simp, rfl⟩

/-- An entry is read with its key first. -/
inductive Keyed (Form : Bytes → Value → Prop) : Bytes → String × Value → Prop where
  | entry {front back : Bytes} {key : String} {v : Value} (keyed : KeyForm front key)
      (form : Form back v) : Keyed Form (front ++ back) (key, v)

/-- No entry has a key that was seen, nor have two the same. -/
def Fresh (seen : Std.HashSet String) (entries : Fields) : Prop :=
  (entries.map Prod.fst).Nodup ∧ ∀ entry ∈ entries, entry.1 ∉ seen

theorem fresh_iff {seen : Std.HashSet String} {entries : Fields} :
    Fresh seen entries ↔ Value.FreshKeys seen (entries.map Prod.fst) := by
  rw [Fresh, Value.FreshKeys, List.forall_mem_map]

theorem fresh_cons {seen : Std.HashSet String} {key : String} {v : Value} {entries : Fields} :
    Fresh seen ((key, v) :: entries) ↔ key ∉ seen ∧ Fresh (seen.insert key) entries := by
  rw [fresh_iff, fresh_iff, List.map_cons, Value.freshKeys_cons_iff]

theorem readEntries_eq_ok_iff {readItem : Reader Value} {Form : Bytes → Value → Prop}
    (reads : Reads readItem Form) {count : Nat} {seen : Std.HashSet String} {found all : Fields}
    {bytes rest : Bytes} :
    readEntries readItem seen found count bytes = .ok (all, rest) ↔
      ∃ parts entries, List.Forall₂ (Keyed Form) parts entries ∧ entries.length = count ∧
        Fresh seen entries ∧ all = found.reverse ++ entries ∧ bytes = parts.flatten ++ rest := by
  induction count generalizing seen found bytes with
  | zero =>
    constructor
    · intro read
      cases read
      exact ⟨[], [], .nil, rfl, ⟨List.nodup_nil, nofun⟩, (List.append_nil _).symm, rfl⟩
    · rintro ⟨parts, entries, each, length, fresh, rfl, rfl⟩
      obtain rfl := List.length_eq_zero_iff.1 length
      cases each
      simp [readEntries]
  | succ count ih =>
    constructor
    · intro read
      rw [readEntries, bind_eq_ok_iff] at read
      obtain ⟨⟨key, others⟩, first, read⟩ := read
      obtain ⟨front, keyed, rfl⟩ := (reads_key _ _ _).1 first
      dsimp only at read
      split_ifs at read with new
      · rw [bind_eq_ok_iff] at read
        obtain ⟨⟨v, others⟩, second, read⟩ := read
        obtain ⟨back, form, rfl⟩ := (reads _ _ _).1 second
        obtain ⟨parts, entries, each, rfl, fresh, rfl, rfl⟩ := ih.1 read
        have unseen : key ∉ seen := by simpa using new
        exact ⟨(front ++ back) :: parts, (key, v) :: entries, .cons (.entry keyed form) each, rfl,
          fresh_cons.2 ⟨unseen, fresh⟩, by simp, by simp⟩
    · rintro ⟨parts, entries, each, length, fresh, rfl, rfl⟩
      cases each with
      | nil => cases length
      | @cons part entry parts entries form each =>
        cases form with
        | @entry front back key v keyed form =>
          obtain ⟨unseen, fresh⟩ := fresh_cons.1 fresh
          have new : ¬seen.contains key = true := by simpa using unseen
          rw [List.flatten_cons, List.append_assoc, List.append_assoc, readEntries,
            reads_key.append keyed, ok_bind]
          dsimp only
          rw [if_neg new, reads.append form]
          exact ih.2 ⟨parts, entries, each, Nat.succ.inj length, fresh, by simp, rfl⟩

/-! ## Values -/

theorem forall₂_and_right {Form : Bytes → α → Prop} {Good : α → Prop} {parts : List Bytes}
    {items : List α} :
    List.Forall₂ (fun part a => Form part a ∧ Good a) parts items ↔
      List.Forall₂ Form parts items ∧ ∀ a ∈ items, Good a := by
  induction items generalizing parts with
  | nil => simp
  | cons a items ih =>
    simp only [List.forall₂_cons_right_iff, ih, List.forall_mem_cons]
    constructor
    · rintro ⟨part, others, ⟨form, good⟩, ⟨each, rest⟩, rfl⟩
      exact ⟨⟨part, others, form, each, rfl⟩, good, rest⟩
    · rintro ⟨⟨part, others, form, each, rfl⟩, good, rest⟩
      exact ⟨part, others, ⟨form, good⟩, ⟨each, rest⟩, rfl⟩

/-- An entry is read when its value is. -/
theorem keyed_iff {Good : Value → Prop} {part : Bytes} {entry : String × Value} :
    Keyed (fun back v => Document back v ∧ Good v) part entry ↔
      EntryForm part entry ∧ Good entry.2 := by
  constructor
  · rintro ⟨keyed, document, good⟩
    exact ⟨.entry keyed document, good⟩
  · rintro ⟨⟨keyed, document⟩, good⟩
    exact .entry keyed ⟨document, good⟩

theorem readInt_eq_ok_iff {i : Int} {v : Value} (lower : -0x8000000000000000 ≤ i) :
    readInt i = .ok v ↔ ∃ n : Int64, n.toInt = i ∧ v = .int n := by
  constructor
  · intro read
    unfold readInt at read
    split_ifs at read with upper
    cases read
    exact ⟨_, Int64.toInt_ofInt_of_le lower upper, rfl⟩
  · rintro ⟨n, rfl, rfl⟩
    exact readInt_toInt n

/-- A document that a reader accepts that may open `room` containers. -/
def Admits (room : Nat) (front : Bytes) (v : Value) : Prop :=
  Document front v ∧ v.KeysDistinct ∧ v.depth ≤ room

theorem readItems_admits {readItem : Reader Value} {room : Nat}
    (reads : Reads readItem (Admits room)) {count : Nat} {items : List Value}
    {bytes rest : Bytes} :
    readItems readItem [] count bytes = .ok (items, rest) ↔
      ∃ parts, List.Forall₂ Document parts items ∧ items.length = count ∧
        (Value.KeysDistinctItems items ∧ Value.depthItems items ≤ room) ∧
        bytes = parts.flatten ++ rest := by
  rw [readItems_eq_ok_iff reads, Value.keysDistinctItems_iff, Value.depthItems_le_iff]
  constructor
  · rintro ⟨parts, all, each, rfl, rfl, rfl⟩
    obtain ⟨documents, good⟩ := forall₂_and_right.1 each
    exact ⟨parts, documents, rfl, ⟨fun v member => (good v member).1,
      fun v member => (good v member).2⟩, rfl⟩
  · rintro ⟨parts, documents, rfl, ⟨distinct, shallow⟩, rfl⟩
    exact ⟨parts, items, forall₂_and_right.2 ⟨documents, fun v member =>
      ⟨distinct v member, shallow v member⟩⟩, rfl, rfl, rfl⟩

theorem readEntries_admits {readItem : Reader Value} {room : Nat}
    (reads : Reads readItem (Admits room)) {count : Nat} {entries : Fields}
    {bytes rest : Bytes} :
    readEntries readItem ∅ [] count bytes = .ok (entries, rest) ↔
      ∃ parts, List.Forall₂ EntryForm parts entries ∧ entries.length = count ∧
        (((entries.map Prod.fst).Nodup ∧ Value.KeysDistinctEntries entries) ∧
          Value.depthEntries entries ≤ room) ∧
        bytes = parts.flatten ++ rest := by
  have keyed : Keyed (Admits room) =
      fun part entry => EntryForm part entry ∧ entry.2.KeysDistinct ∧ entry.2.depth ≤ room := by
    funext part entry
    exact propext keyed_iff
  rw [readEntries_eq_ok_iff reads, Value.keysDistinctEntries_iff, Value.depthEntries_le_iff, keyed]
  constructor
  · rintro ⟨parts, all, each, rfl, ⟨distinct, -⟩, rfl, rfl⟩
    obtain ⟨forms, good⟩ := forall₂_and_right.1 each
    exact ⟨parts, forms, rfl, ⟨⟨distinct, fun entry member => (good entry member).1⟩,
      fun entry member => (good entry member).2⟩, rfl⟩
  · rintro ⟨parts, forms, rfl, ⟨⟨keys, distinct⟩, shallow⟩, rfl⟩
    exact ⟨parts, entries, forall₂_and_right.2 ⟨forms, fun entry member =>
      ⟨distinct entry member, shallow entry member⟩⟩, rfl, ⟨keys, fun _ _ => by simp⟩, rfl, rfl⟩

/-- No form of an integer holds less than a signed integer of 64 bits. -/
theorem Head.SpellsInt.lower {front : Bytes} {i : Int} (spelled : Head.SpellsInt front i) :
    -0x8000000000000000 ≤ i := by
  cases spelled with
  | small few | negative few | unsigned known fits => omega
  | signed known lower upper =>
    simp only [List.mem_cons, Prod.mk.injEq, List.not_mem_nil, or_false] at known
    rcases known with ⟨-, rfl⟩ | ⟨-, rfl⟩ | ⟨-, rfl⟩ | ⟨-, rfl⟩ <;> omega

variable {room : Nat} (inner : ∀ lower, room = lower + 1 → Reads (readValue lower) (Admits lower))

include inner

theorem document_of_readValue {bytes rest : Bytes} {v : Value}
    (read : readValue room bytes = .ok (v, rest)) :
    ∃ front, Admits room front v ∧ bytes = front ++ rest := by
  rw [readValue, bind_eq_ok_iff] at read
  obtain ⟨⟨head, others⟩, first, read⟩ := read
  obtain ⟨front, spelled, rfl⟩ := (reads_head _ _ _).1 first
  cases head with
  | nil =>
    cases read
    exact ⟨front, ⟨.null spelled, trivial, Nat.zero_le _⟩, rfl⟩
  | bool b =>
    cases read
    exact ⟨front, ⟨.bool spelled, trivial, Nat.zero_le _⟩, rfl⟩
  | int i =>
    have lower : -0x8000000000000000 ≤ i := by
      cases spelled with
      | int spelled => exact spelled.lower
    obtain ⟨v, number, last⟩ := bind_eq_ok_iff.1 read
    obtain ⟨n, rfl, rfl⟩ := (readInt_eq_ok_iff lower).1 number
    cases last
    exact ⟨front, ⟨.int spelled, trivial, Nat.zero_le _⟩, rfl⟩
  | float x =>
    cases read
    exact ⟨front, ⟨.float spelled, trivial, Nat.zero_le _⟩, rfl⟩
  | text length =>
    obtain ⟨⟨s, others⟩, text, last⟩ := bind_eq_ok_iff.1 read
    obtain ⟨rfl, rfl⟩ := readText_eq_ok_iff.1 text
    cases last
    exact ⟨_, ⟨.string spelled, trivial, Nat.zero_le _⟩, (List.append_assoc ..).symm⟩
  | array length =>
    cases room with
    | zero => cases read
    | succ room =>
      obtain ⟨⟨items, others⟩, listed, last⟩ := bind_eq_ok_iff.1 read
      obtain ⟨parts, each, rfl, ⟨distinct, shallow⟩, rfl⟩ :=
        (readItems_admits (inner room rfl)).1 listed
      cases last
      exact ⟨_, ⟨.array spelled each, distinct, Nat.succ_le_succ shallow⟩,
        (List.append_assoc ..).symm⟩
  | map length =>
    cases room with
    | zero => cases read
    | succ room =>
      obtain ⟨⟨entries, others⟩, listed, last⟩ := bind_eq_ok_iff.1 read
      obtain ⟨parts, each, rfl, ⟨distinct, shallow⟩, rfl⟩ :=
        (readEntries_admits (inner room rfl)).1 listed
      cases last
      exact ⟨_, ⟨.map spelled each, distinct, Nat.succ_le_succ shallow⟩,
        (List.append_assoc ..).symm⟩
  | binary length | other => cases read

theorem readValue_of_document {front : Bytes} {v : Value} (admitted : Admits room front v)
    (rest : Bytes) : readValue room (front ++ rest) = .ok (v, rest) := by
  obtain ⟨document, distinct, shallow⟩ := admitted
  rw [readValue]
  cases document with
  | null head | bool head | float head => rw [reads_head.append head, ok_bind]
  | @int _ i head =>
    rw [reads_head.append head, ok_bind]
    dsimp only
    rw [readInt_toInt, ok_bind]
  | @string front s head =>
    rw [List.append_assoc, reads_head.append head, ok_bind]
    dsimp only
    rw [readText_append, ok_bind]
  | @array front parts items head each =>
    cases room with
    | zero => cases shallow
    | succ room =>
      have listed : readItems (readValue room) [] items.length (parts.flatten ++ rest) =
          .ok (items, rest) := (readItems_admits (inner room rfl)).2
        ⟨parts, each, rfl, ⟨distinct, Nat.le_of_succ_le_succ shallow⟩, rfl⟩
      rw [List.append_assoc, reads_head.append head, ok_bind]
      dsimp only
      rw [listed, ok_bind]
  | @map front parts entries head each =>
    cases room with
    | zero => cases shallow
    | succ room =>
      have listed : readEntries (readValue room) ∅ [] entries.length (parts.flatten ++ rest) =
          .ok (entries, rest) := (readEntries_admits (inner room rfl)).2
        ⟨parts, each, rfl, ⟨distinct, Nat.le_of_succ_le_succ shallow⟩, rfl⟩
      rw [List.append_assoc, reads_head.append head, ok_bind]
      dsimp only
      rw [listed, ok_bind]

omit inner

theorem reads_value (room : Nat) : Reads (readValue room) (Admits room) := by
  have step {room : Nat}
      (inner : ∀ lower, room = lower + 1 → Reads (readValue lower) (Admits lower)) :
      Reads (readValue room) (Admits room) := by
    intro bytes v rest
    constructor
    · exact document_of_readValue inner
    · rintro ⟨front, admitted, rfl⟩
      exact readValue_of_document inner admitted rest
  induction room with
  | zero => exact step nofun
  | succ room ih =>
    refine step fun lower below => ?_
    cases below
    exact ih

/-! ## Main result -/

/-- The reader accepts the documents of values whose maps have no key twice and in which fewer than
1024 containers nest, each as the value that it is a document of, and no other bytes. -/
theorem decode_eq_ok_iff (bytes : Bytes) (v : Value) :
    decode bytes = .ok v ↔ Document bytes v ∧ v.KeysDistinct ∧ v.depth ≤ 1023 := by
  constructor
  · intro decoded
    rw [decode, bind_eq_ok_iff] at decoded
    obtain ⟨⟨u, rest⟩, read, decoded⟩ := decoded
    dsimp only at decoded
    split_ifs at decoded with finished
    cases decoded
    obtain rfl := List.isEmpty_iff.1 finished
    obtain ⟨front, admitted, rfl⟩ := (reads_value depthLimit _ _ _).1 read
    rw [List.append_nil]
    exact admitted
  · intro admitted
    have read := (reads_value depthLimit).append admitted []
    rw [List.append_nil] at read
    rw [decode, read, ok_bind]
    rfl

end Patchbay.MessagePack
