import Patchbay.Proofs.Tokenizers.Vocabularies

/-!
# The longest piece first

A text is encoded by cutting off the longest piece that it starts with, again and again, until nothing
is left or no piece fits. Sizes are counted in bytes, and a size that ends inside a character is passed
over; no piece is missed for it, as a text that starts with a piece has a character boundary behind it.
-/

namespace Patchbay.Modules.Tokenizer

variable {vocabulary : Fields} {t : Tokenizer} {piece other rest tail text : String} {id : Int64}

/-- The longest piece of a vocabulary that a text starts with, its id, and what is behind it. -/
structure Longest (vocabulary : Fields) (text piece : String) (id : Int64) (rest : String) :
    Prop where
  listed : (piece, .int id) ∈ vocabulary
  starts : text = piece ++ rest
  size_le : ∀ {other v tail}, (other, v) ∈ vocabulary → text = other ++ tail →
    other.utf8ByteSize ≤ piece.utf8ByteSize

/-- A text starts with no piece of a vocabulary. -/
def Stuck (vocabulary : Fields) (text : String) : Prop :=
  ∀ piece v rest, (piece, v) ∈ vocabulary → text ≠ piece ++ rest

/-- Longest pieces are cut off a text, one after the other: their ids, and what is left of the text. -/
inductive Cuts (vocabulary : Fields) : String → List Int64 → String → Prop where
  | nil (text : String) : Cuts vocabulary text [] text
  | cons {text piece rest left : String} {id : Int64} {ids : List Int64}
      (first : Longest vocabulary text piece id rest) (others : Cuts vocabulary rest ids left) :
      Cuts vocabulary text (id :: ids) left

/-! ## Cutting -/

theorem stuck_empty (proper : Proper vocabulary) : Stuck vocabulary "" := by
  intro piece v rest listed same
  have blank := (String.append_eq_empty_iff.1 same.symm).1
  exact proper.nonempty (piece, v) listed blank

/-- Two starts of one text that are of the same size are the same. -/
theorem append_inj_of_size (same : piece ++ rest = other ++ tail)
    (size : piece.utf8ByteSize = other.utf8ByteSize) : piece = other ∧ rest = tail := by
  have first := String.Pos.splits_ofEqAppend same.symm
  have second : (String.Pos.ofEqAppend same.symm).Splits other tail :=
    ⟨rfl, first.offset_eq_rawEndPos.trans (String.Pos.Raw.ext size)⟩
  exact first.eq second

theorem Longest.unique {j : Int64} (tables : Tabulates t vocabulary)
    (h : Longest vocabulary text piece id rest) (k : Longest vocabulary text other j tail) :
    piece = other ∧ id = j ∧ rest = tail := by
  have size := Nat.le_antisymm (k.size_le h.listed h.starts) (h.size_le k.listed k.starts)
  obtain ⟨rfl, rfl⟩ := append_inj_of_size (h.starts.symm.trans k.starts) size
  have same := (tables.pieces.2 h.listed).symm.trans (tables.pieces.2 k.listed)
  exact ⟨rfl, Option.some.inj same, rfl⟩

theorem Cuts.unique {left : String} {ids js : List Int64} (tables : Tabulates t vocabulary)
    (h : Cuts vocabulary text ids left) (k : Cuts vocabulary text js tail)
    (stuck : Stuck vocabulary left) (stuck' : Stuck vocabulary tail) : ids = js ∧ left = tail := by
  induction h generalizing js with
  | nil text =>
    cases k with
    | nil => exact ⟨rfl, rfl⟩
    | cons first others => exact absurd first.starts (stuck _ _ _ first.listed)
  | cons first others ih =>
    cases k with
    | nil => exact absurd first.starts (stuck' _ _ _ first.listed)
    | cons second later =>
      obtain ⟨rfl, rfl, rfl⟩ := first.unique tables second
      obtain ⟨rfl, rfl⟩ := ih later stuck
      exact ⟨rfl, rfl⟩

/-! ## Matching -/

section Match

variable {whole : String.Slice} {stop : whole.Pos} {size bound : Nat}

theorem pieceAt?_eq_some_iff :
    t.pieceAt? whole size = some (stop, id) ↔
      ∃ piece rest, stop.Splits piece rest ∧ size = piece.utf8ByteSize ∧
        Table.find? t.pieces piece = some id := by
  rw [pieceAt?, Option.bind_eq_some_iff]
  constructor
  · rintro ⟨place, placed, found⟩
    obtain ⟨id, found, same⟩ := Option.map_eq_some_iff.1 found
    cases same
    have offset := stop.splits.offset_eq_rawEndPos
    rw [pos?_eq_some_iff.1 placed] at offset
    exact ⟨_, _, stop.splits, congrArg String.Pos.Raw.byteIdx offset, found⟩
  · rintro ⟨piece, rest, splits, rfl, found⟩
    refine ⟨stop, pos?_eq_some_iff.2 splits.offset_eq_rawEndPos, ?_⟩
    rw [splits.copy_sliceTo_eq, found]
    rfl

/-- A match is the piece of the largest size within the bound. -/
theorem match?_cases (t : Tokenizer) (whole : String.Slice) (bound : Nat) :
    (t.match? whole bound = none ∧
        ∀ size, 0 < size → size ≤ bound → t.pieceAt? whole size = none) ∨
      ∃ size found, t.match? whole bound = some found ∧ t.pieceAt? whole size = some found ∧
        ∀ larger, size < larger → larger ≤ bound → t.pieceAt? whole larger = none := by
  induction bound with
  | zero => exact .inl ⟨rfl, fun size some none => absurd some (by omega)⟩
  | succ bound ih =>
    rw [match?]
    cases here : t.pieceAt? whole (bound + 1) with
    | some found => exact .inr ⟨bound + 1, found, rfl, here, fun larger more less => by omega⟩
    | none =>
      -- what holds up to the bound holds one size further, as there is no piece of this size
      have further : ∀ {size}, (size ≤ bound → t.pieceAt? whole size = none) →
          size ≤ bound + 1 → t.pieceAt? whole size = none := by
        intro size below within
        obtain less | rfl := Nat.lt_or_eq_of_le within
        · exact below (by omega)
        · exact here
      obtain ⟨none, missing⟩ | ⟨size, found, same, there, missing⟩ := ih
      · exact .inl ⟨none, fun size some => further (missing size some)⟩
      · exact .inr ⟨size, found, same, there, fun larger more => further (missing larger more)⟩

/-- A piece that a text starts with is looked up: its size is within the bound and at the end of a
character. -/
theorem pieceAt?_of_starts (tables : Tabulates t vocabulary) (proper : Proper vocabulary)
    {v : Value} (listed : (piece, v) ∈ vocabulary) (starts : whole.copy = piece ++ rest) :
    0 < piece.utf8ByteSize ∧ piece.utf8ByteSize ≤ min t.longest whole.utf8ByteSize ∧
      t.pieceAt? whole piece.utf8ByteSize ≠ none := by
  obtain ⟨id, rfl⟩ := proper.numbered _ listed
  have some : piece.utf8ByteSize ≠ 0 := fun zero =>
    proper.nonempty _ listed (String.utf8ByteSize_eq_zero_iff.1 zero)
  have whole_size : whole.utf8ByteSize = piece.utf8ByteSize + rest.utf8ByteSize := by
    rw [← String.Slice.utf8ByteSize_copy, starts, String.utf8ByteSize_append]
  have within := tables.size_le listed
  have found := pieceAt?_eq_some_iff.2
    ⟨piece, rest, String.Slice.Pos.splits_ofEqAppend starts, rfl, tables.pieces.2 listed⟩
  exact ⟨by omega, by omega, by simp [found]⟩

theorem match?_longest (tables : Tabulates t vocabulary) (proper : Proper vocabulary)
    (whole : String.Slice) :
    (t.match? whole (min t.longest whole.utf8ByteSize) = none ∧ Stuck vocabulary whole.copy) ∨
      ∃ stop id piece rest, t.match? whole (min t.longest whole.utf8ByteSize) = some (stop, id) ∧
        stop.Splits piece rest ∧ Longest vocabulary whole.copy piece id rest := by
  obtain ⟨none, missing⟩ | ⟨size, ⟨stop, id⟩, same, there, missing⟩ :=
    match?_cases t whole (min t.longest whole.utf8ByteSize)
  · refine .inl ⟨none, fun piece v rest listed starts => ?_⟩
    obtain ⟨some, within, looked⟩ := pieceAt?_of_starts tables proper listed starts
    exact looked (missing _ some within)
  · obtain ⟨piece, rest, splits, rfl, found⟩ := pieceAt?_eq_some_iff.1 there
    refine .inr ⟨stop, id, piece, rest, same, splits, tables.pieces.1 found, splits.eq_append, ?_⟩
    intro other v tail listed starts
    by_contra more
    obtain ⟨-, within, looked⟩ := pieceAt?_of_starts tables proper listed starts
    exact looked (missing _ (by omega) within)

end Match

/-! ## Encoding and decoding -/

/-- All that encoding comes to: the longest pieces are cut off until nothing is left, or until no piece
fits. -/
theorem tokens_cases (tables : Tabulates t vocabulary) (proper : Proper vocabulary) (size : Nat)
    (found : List Int64) (rest : String.Slice) :
    ∃ ids left, Cuts vocabulary rest.copy ids left ∧ Stuck vocabulary left ∧
      t.tokens size found rest =
        if left = "" then .ok (found.reverse ++ ids)
        else .error (.failed
          s!"no vocabulary piece matches at byte {size - left.utf8ByteSize}") := by
  fun_induction t.tokens size found rest with
  | case1 found rest blank =>
    rw [String.Slice.copy_eq_empty_iff.2 blank]
    exact ⟨[], "", .nil "", stuck_empty proper, by simp⟩
  | case2 found rest some stop id matched smaller ih =>
    obtain ⟨none, -⟩ | ⟨stop', id', piece, tail, matched', splits, longest⟩ :=
      match?_longest tables proper rest
    · rw [none] at matched
      cases matched
    · cases matched'.symm.trans matched
      obtain ⟨ids, left, cuts, stuck, later⟩ := ih
      rw [splits.copy_sliceFrom_eq] at cuts
      refine ⟨id :: ids, left, .cons longest cuts, stuck, ?_⟩
      rw [later, List.reverse_cons, List.append_assoc, List.singleton_append]
  | case3 found rest some matched offset =>
    obtain ⟨-, stuck⟩ | ⟨stop, id, piece, tail, matched', -, -⟩ := match?_longest tables proper rest
    · have left : rest.copy ≠ "" := fun blank => some (String.Slice.copy_eq_empty_iff.1 blank)
      refine ⟨[], rest.copy, .nil rest.copy, stuck, ?_⟩
      rw [if_neg left, String.Slice.utf8ByteSize_copy]
    · rw [matched] at matched'
      cases matched'

/-- The pieces of the ids are the front of the text from which they were cut. -/
theorem foldlM_piece {left : String} {ids : List Int64} (tables : Tabulates t vocabulary)
    (cuts : Cuts vocabulary text ids left) (before : String) :
    ∃ front, text = front ++ left ∧
      (ids.map Value.int).foldlM (fun text token => return text ++ (← t.piece token)) before =
        (.ok (before ++ front) : Except Fault String) := by
  induction cuts generalizing before with
  | nil text => exact ⟨"", by simp, by simp [pure, Except.pure]⟩
  | @cons text piece rest left id ids first others ih =>
    obtain ⟨front, same, decoded⟩ := ih (before ++ piece)
    refine ⟨piece ++ front, by rw [first.starts, same, String.append_assoc], ?_⟩
    have found : t.piece (.int id) = .ok piece := by
      rw [Tokenizer.piece, tables.ids.2 first.listed]
    rw [List.map_cons, List.foldlM_cons, found, ok_bind, ← String.append_assoc]
    exact decoded

theorem encode_cases (tables : Tabulates t vocabulary) (proper : Proper vocabulary)
    (text : String) :
    ∃ ids front left, Cuts vocabulary text ids left ∧ Stuck vocabulary left ∧ text = front ++ left ∧
      t.encode text =
        if left = "" then .ok ids
        else .error (.failed s!"no vocabulary piece matches at byte {front.utf8ByteSize}") := by
  obtain ⟨ids, left, cuts, stuck, encoded⟩ :=
    tokens_cases tables proper text.utf8ByteSize [] text.toSlice
  rw [String.copy_toSlice] at cuts
  obtain ⟨front, same, -⟩ := foldlM_piece tables cuts ""
  have offset : text.utf8ByteSize - left.utf8ByteSize = front.utf8ByteSize := by
    rw [same, String.utf8ByteSize_append, Nat.add_sub_cancel]
  rw [offset] at encoded
  exact ⟨ids, front, left, cuts, stuck, same, encoded⟩

/-! ## Main results -/

/-- A text is encoded as the ids of the longest pieces that can be cut off it one after the other with
nothing left over. It is refused exactly when they lead to a rest that is not empty and starts with no
piece, at the byte where this rest begins. Whenever a text starts with a piece, a match is found that is
at least as long. -/
theorem encode_greedy (distinct : (vocabulary.map Prod.fst).Nodup)
    (accepted : ofVocabulary vocabulary = .ok t) (text : String) :
    (∀ ids, t.encode text = .ok ids ↔ Cuts vocabulary text ids "") ∧
      (∀ e, t.encode text = .error e ↔
        ∃ ids front rest, Cuts vocabulary text ids rest ∧ Stuck vocabulary rest ∧ rest ≠ "" ∧
          text = front ++ rest ∧
          e = .failed s!"no vocabulary piece matches at byte {front.utf8ByteSize}") ∧
      ∀ (rest : String.Slice) (piece tail : String) (v : Value), (piece, v) ∈ vocabulary →
        rest.copy = piece ++ tail →
          ∃ stop id, t.match? rest (min t.longest rest.utf8ByteSize) = some (stop, id) ∧
            piece.utf8ByteSize ≤ stop.offset.byteIdx := by
  have tables := tabulates_of_ofVocabulary distinct accepted
  have proper := (exists_ofVocabulary_iff distinct).1 ⟨t, accepted⟩
  obtain ⟨ids, front, left, cuts, stuck, same, encoded⟩ := encode_cases tables proper text
  refine ⟨fun js => ⟨fun succeeded => ?_, fun others => ?_⟩,
    fun e => ⟨fun failed => ?_, ?_⟩, fun rest piece tail v listed starts => ?_⟩
  · rw [encoded] at succeeded
    split at succeeded
    · next nothing =>
      cases succeeded
      exact nothing ▸ cuts
    · cases succeeded
  · obtain ⟨rfl, rfl⟩ := cuts.unique tables others stuck (stuck_empty proper)
    rw [encoded, if_pos rfl]
  · rw [encoded] at failed
    split at failed
    · cases failed
    · next some =>
      cases failed
      exact ⟨ids, front, left, cuts, stuck, some, same, rfl⟩
  · rintro ⟨js, start, rest, others, stuck', some, split, rfl⟩
    obtain ⟨rfl, rfl⟩ := cuts.unique tables others stuck stuck'
    have offset := (String.append_left_inj left).1 (same.symm.trans split)
    rw [encoded, if_neg some, offset]
  · obtain ⟨-, stuck⟩ | ⟨stop, id, longest, behind, matched, splits, first⟩ :=
      match?_longest tables proper rest
    · exact absurd starts (stuck piece v tail listed)
    · have size := congrArg String.Pos.Raw.byteIdx splits.offset_eq_rawEndPos
      exact ⟨stop, id, matched, size.symm ▸ first.size_le listed starts⟩

/-- Pieces that start with one another, and pieces with characters of two and of four bytes. -/
def mixed : Fields :=
  [("a", .int 1), ("ab", .int 2), ("é", .int 3), ("éa", .int 4), ("b😀", .int 5)]

/-- A text of three pieces; and one that is refused at its last byte, as the longest piece comes first,
though two shorter ones make it up. -/
theorem encode_greedy_mixed :
    (mixed.map Prod.fst).Nodup ∧ ∃ t, ofVocabulary mixed = .ok t ∧
      Cuts mixed "éab😀a" [4, 5, 1] "" ∧
      (∃ ids front rest, Cuts mixed "éab" ids rest ∧ Stuck mixed rest ∧ rest ≠ "" ∧
        "éab" = front ++ rest ∧ Fault.failed "no vocabulary piece matches at byte 3" =
          .failed s!"no vocabulary piece matches at byte {front.utf8ByteSize}") ∧
      "éab" = "é" ++ "ab" ∧
      ∃ stop id, t.match? "éab".toSlice (min t.longest "éab".toSlice.utf8ByteSize) =
        some (stop, id) ∧ "é".utf8ByteSize ≤ stop.offset.byteIdx := by
  have distinct : (mixed.map Prod.fst).Nodup := by decide
  obtain ⟨-, refused, found⟩ := encode_greedy distinct rfl "éab"
  refine ⟨distinct, _, rfl, ?_, (refused _).1 (by decide +kernel), rfl, ?_⟩
  · exact ((encode_greedy distinct rfl "éab😀a").1 _).1 (by decide +kernel)
  · exact found "éab".toSlice "é" "ab" (.int 3) (by simp [mixed]) String.copy_toSlice

/-- A vocabulary is accepted exactly when its ids are integers, no two of them the same, and none of its
pieces is empty. Then its two tables are inverse to each other, and the ids of every text that is encoded
are decoded as this text. -/
theorem tokens_round_trip (distinct : (vocabulary.map Prod.fst).Nodup) :
    ((∃ t, ofVocabulary vocabulary = .ok t) ↔ Proper vocabulary) ∧
      ∀ t, ofVocabulary vocabulary = .ok t →
        Tabulates t vocabulary ∧
          (∀ piece id, Table.find? t.pieces piece = some id ↔ Table.find? t.ids id = some piece) ∧
          ∀ text ids, t.encode text = .ok ids → t.decode (ids.map .int) = .ok text := by
  refine ⟨exists_ofVocabulary_iff distinct, fun t accepted => ?_⟩
  have tables := tabulates_of_ofVocabulary distinct accepted
  have proper := (exists_ofVocabulary_iff distinct).1 ⟨t, accepted⟩
  refine ⟨tables, fun piece id => tables.pieces.trans tables.ids.symm, fun text ids succeeded => ?_⟩
  obtain ⟨js, front, left, cuts, -, -, encoded⟩ := encode_cases tables proper text
  rw [encoded] at succeeded
  split at succeeded
  · next nothing =>
    cases succeeded
    obtain ⟨whole, same, decoded⟩ := foldlM_piece tables cuts ""
    rw [nothing, String.append_empty] at same
    rw [decode, decoded, String.empty_append, same]
  · cases succeeded

/-- A text that is decoded again; and a vocabulary with an id for two pieces. -/
theorem tokens_round_trip_mixed :
    ((mixed.map Prod.fst).Nodup ∧ ∃ t, ofVocabulary mixed = .ok t ∧
        t.encode "éab😀a" = .ok [4, 5, 1] ∧ t.decode ([4, 5, 1].map .int) = .ok "éab😀a") ∧
      ¬ ∃ t, ofVocabulary [("a", .int 1), ("b", .int 1)] = .ok t := by
  have distinct : (mixed.map Prod.fst).Nodup := by decide
  refine ⟨⟨distinct, _, rfl, ?_⟩, fun accepted => ?_⟩
  · have encoded := ((tokens_round_trip distinct).2 _ rfl).2.2 "éab😀a" [4, 5, 1]
    exact ⟨by decide +kernel, encoded (by decide +kernel)⟩
  · have proper := (tokens_round_trip (by decide)).1.1 accepted
    exact (List.nodup_cons.1 proper.apart).1 (by simp)

end Patchbay.Modules.Tokenizer
