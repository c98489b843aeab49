import Patchbay.Modules.Tokenizer
import Patchbay.Proofs.Results
import Patchbay.Proofs.Tables

/-!
# What a vocabulary is tabulated as

A vocabulary is accepted exactly when its ids are integers, no two of them the same, and none of its
pieces is empty. The two tables of a tokenizer then hold the entries of the vocabulary and nothing
else, once by the piece and once by the id, and no piece is larger than the bound that is kept.
-/

namespace Patchbay.Modules.Tokenizer

variable {vocabulary listed rest : Fields} {t next last : Tokenizer} {piece : String} {v : Value}

/-- The ids are integers, no two of them the same, and no piece is empty. -/
structure Proper (vocabulary : Fields) : Prop where
  numbered : ∀ entry ∈ vocabulary, ∃ id, entry.2 = .int id
  nonempty : ∀ entry ∈ vocabulary, entry.1 ≠ ""
  apart : (vocabulary.map Prod.snd).Nodup

/-- The tables hold the entries of a vocabulary and nothing else. -/
structure Tabulates (t : Tokenizer) (vocabulary : Fields) : Prop where
  pieces : ∀ {piece id}, Table.find? t.pieces piece = some id ↔ (piece, .int id) ∈ vocabulary
  ids : ∀ {piece id}, Table.find? t.ids id = some piece ↔ (piece, .int id) ∈ vocabulary
  size_le : ∀ {piece id}, (piece, .int id) ∈ vocabulary → piece.utf8ByteSize ≤ t.longest

theorem proper_nil : Proper [] := ⟨nofun, nofun, List.nodup_nil⟩

theorem tabulates_empty : Tabulates empty [] := ⟨by simp [empty], by simp [empty], nofun⟩

theorem Proper.left (proper : Proper (listed ++ rest)) : Proper listed := by
  obtain ⟨numbered, nonempty, apart⟩ := proper
  rw [List.map_append] at apart
  exact ⟨fun entry member => numbered entry (List.mem_append_left rest member),
    fun entry member => nonempty entry (List.mem_append_left rest member),
    (List.nodup_append.1 apart).1⟩

/-! ## One entry -/

theorem add_eq_ok_iff :
    t.add piece v = .ok next ↔
      ∃ id, v = .int id ∧ piece ≠ "" ∧ Table.find? t.ids id = none ∧
        next = ⟨Table.put t.pieces piece id, Table.put t.ids id piece,
          max t.longest piece.utf8ByteSize⟩ := by
  cases v with
  | int id =>
    rw [add]
    by_cases blank : piece = ""
    · simp [blank]
    · have some : piece.isEmpty = false := by simpa using blank
      cases taken : Table.find? t.ids id with
      | some previous => simp [some, taken]
      | none => simp [some, blank, taken, eq_comm]
  | _ => simp [add]

theorem Tabulates.pieces_eq_none (tables : Tabulates t listed)
    (fresh : piece ∉ listed.map Prod.fst) : Table.find? t.pieces piece = none := by
  rw [Option.eq_none_iff_forall_ne_some]
  intro id found
  exact fresh (List.mem_map_of_mem (f := Prod.fst) (tables.pieces.1 found))

theorem Tabulates.ids_eq_none_iff (tables : Tabulates t listed) {id : Int64} :
    Table.find? t.ids id = none ↔ .int id ∉ listed.map Prod.snd := by
  rw [Option.eq_none_iff_forall_ne_some, List.mem_map, not_exists]
  constructor
  · rintro unused ⟨piece, v⟩ ⟨member, rfl⟩
    exact unused piece (tables.ids.2 member)
  · intro unused piece found
    exact unused (piece, .int id) ⟨tables.ids.1 found, rfl⟩

/-- One entry more is taken when it has an integer that is no id yet and its piece is not empty. -/
theorem exists_add_iff (tables : Tabulates t listed) (proper : Proper listed) :
    (∃ next, t.add piece v = .ok next) ↔ Proper (listed ++ [(piece, v)]) := by
  have ids : (listed ++ [(piece, v)]).map Prod.snd = (listed.map Prod.snd).concat v := by simp
  constructor
  · rintro ⟨next, added⟩
    obtain ⟨id, rfl, some, unused, -⟩ := add_eq_ok_iff.1 added
    refine ⟨?_, ?_, ?_⟩
    · rw [List.forall_mem_append, List.forall_mem_singleton]
      exact ⟨proper.numbered, id, rfl⟩
    · rw [List.forall_mem_append, List.forall_mem_singleton]
      exact ⟨proper.nonempty, some⟩
    · rw [ids, List.nodup_concat]
      exact ⟨tables.ids_eq_none_iff.1 unused, proper.apart⟩
  · rintro ⟨numbered, nonempty, apart⟩
    obtain ⟨id, number⟩ := numbered (piece, v) (by simp)
    cases number
    rw [ids, List.nodup_concat] at apart
    have unused := tables.ids_eq_none_iff.2 apart.1
    exact ⟨_, add_eq_ok_iff.2 ⟨id, rfl, nonempty (piece, .int id) (by simp), unused, rfl⟩⟩

/-- A piece that is new is written behind those that were listed before. -/
theorem Tabulates.add (tables : Tabulates t listed) (fresh : piece ∉ listed.map Prod.fst)
    (added : t.add piece v = .ok next) : Tabulates next (listed ++ [(piece, v)]) := by
  obtain ⟨id, rfl, -, unused, rfl⟩ := add_eq_ok_iff.1 added
  constructor
  · intro other number
    rw [Table.find?_put_eq_some_iff (tables.pieces_eq_none fresh), tables.pieces]
    simp
  · intro other number
    rw [Table.find?_put_eq_some_iff unused, tables.ids]
    simp [and_comm]
  · intro other number member
    rw [List.mem_append, List.mem_singleton] at member
    obtain earlier | same := member
    · exact (tables.size_le earlier).trans (Nat.le_max_left _ _)
    · cases same
      exact Nat.le_max_right _ _

/-! ## All entries -/

/-- The rest of a vocabulary is taken exactly when the whole is proper, and the whole is tabulated
then. -/
theorem foldlM_add (tables : Tabulates t listed) (proper : Proper listed)
    (distinct : ((listed ++ rest).map Prod.fst).Nodup) :
    ((∃ last, rest.foldlM (fun t entry => t.add entry.1 entry.2) t = .ok last) ↔
        Proper (listed ++ rest)) ∧
      ∀ last, rest.foldlM (fun t entry => t.add entry.1 entry.2) t = .ok last →
        Tabulates last (listed ++ rest) := by
  induction rest generalizing t listed with
  | nil =>
    rw [List.append_nil]
    refine ⟨⟨fun _ => proper, fun _ => ⟨t, rfl⟩⟩, fun last same => ?_⟩
    cases same
    exact tables
  | cons entry rest ih =>
    have fresh : entry.1 ∉ listed.map Prod.fst := by
      rw [List.map_append, List.map_cons, List.nodup_append] at distinct
      exact fun member => distinct.2.2 _ member _ List.mem_cons_self rfl
    rw [List.append_cons] at distinct ⊢
    simp only [List.foldlM_cons, bind_eq_ok_iff]
    -- what is left over is taken by the tokenizer behind the first entry
    have later : ∀ next, t.add entry.1 entry.2 = .ok next → _ := fun next added =>
      ih (tables.add fresh added) ((exists_add_iff tables proper).1 ⟨next, added⟩) distinct
    refine ⟨⟨?_, fun whole => ?_⟩, ?_⟩
    · rintro ⟨last, next, added, others⟩
      exact (later next added).1.1 ⟨last, others⟩
    · obtain ⟨next, added⟩ := (exists_add_iff tables proper).2 whole.left
      obtain ⟨last, others⟩ := (later next added).1.2 whole
      exact ⟨last, next, added, others⟩
    · rintro last ⟨next, added, others⟩
      exact (later next added).2 last others

variable (distinct : (vocabulary.map Prod.fst).Nodup)
include distinct

theorem exists_ofVocabulary_iff : (∃ t, ofVocabulary vocabulary = .ok t) ↔ Proper vocabulary :=
  (foldlM_add tabulates_empty proper_nil distinct).1

theorem tabulates_of_ofVocabulary (accepted : ofVocabulary vocabulary = .ok t) :
    Tabulates t vocabulary :=
  (foldlM_add tabulates_empty proper_nil distinct).2 t accepted

end Patchbay.Modules.Tokenizer
