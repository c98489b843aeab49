import Patchbay.Json.Value
import Patchbay.Proofs.Values
import Patchbay.Proofs.Json.Grammar

/-!
# The JSON text of a value

The text that is written for a value without floats is a JSON text, and what the strict builder makes
of its tree is the value again, with room for its depth. Floats are left out here: one that is not
finite is written as null.
-/

namespace Patchbay.Value

open Json

variable {v : Value} {t : Tree}

/-! ## The text -/

/-- The text of a value is written behind what was written before. -/
def Appends (v : Value) : Prop :=
  ∀ out, (putJson out v).toList = out.toList ++ v.toJson.toList

/-- What is written for an item that is not the first one. -/
def itemText (v : Value) : List Char := ',' :: v.toJson.toList

def keyText (key : String) : List Char := '"' :: (key.toList.flatMap Quoted.escape ++ ['"', ':'])

/-- What is written for an entry, the comma aside. -/
def entryText (entry : String × Value) : List Char := keyText entry.1 ++ entry.2.toJson.toList

theorem putJsonItems_toList {items : List Value} (each : ∀ v ∈ items, Appends v) (out : String) :
    (putJsonItems out false items).toList = out.toList ++ items.flatMap itemText := by
  induction items generalizing out with
  | nil => simp [putJsonItems]
  | cons v rest ih =>
    obtain ⟨first, others⟩ := List.forall_mem_cons.1 each
    rw [putJsonItems, ih others, first]
    simp [itemText]

theorem putKey_toList (out key : String) :
    (Quoted.put out key ++ ":").toList = out.toList ++ keyText key := by
  simp [Quoted.put_toList, keyText]

theorem putJsonEntries_toList {entries : Fields} (each : ∀ entry ∈ entries, Appends entry.2)
    (out : String) :
    (putJsonEntries out false entries).toList =
      out.toList ++ entries.flatMap fun entry => ',' :: entryText entry := by
  induction entries generalizing out with
  | nil => simp [putJsonEntries]
  | cons entry rest ih =>
    obtain ⟨first, others⟩ := List.forall_mem_cons.1 each
    rw [putJsonEntries, ih others, first, if_neg Bool.false_ne_true, putKey_toList]
    simp [entryText]

/-- The first item has no comma in front. -/
theorem putJson_array_cons {rest : List Value} (first : Appends v)
    (others : ∀ w ∈ rest, Appends w) (out : String) :
    (putJson out (.array (v :: rest))).toList =
      out.toList ++ '[' :: (v.toJson.toList ++ (rest.flatMap itemText ++ [']'])) := by
  rw [putJson, putJsonItems, String.toList_append, putJsonItems_toList others, first]
  simp

theorem putJson_map_cons {entry : String × Value} {rest : Fields} (first : Appends entry.2)
    (others : ∀ entry ∈ rest, Appends entry.2) (out : String) :
    (putJson out (.map (entry :: rest))).toList =
      out.toList ++ '\x7b' ::
        (entryText entry ++ (rest.flatMap (fun entry => ',' :: entryText entry) ++ ['\x7d'])) := by
  rw [putJson, putJsonEntries, String.toList_append, putJsonEntries_toList others, first,
    if_pos rfl, putKey_toList]
  simp [entryText]

theorem putJson_toList (v : Value) : Appends v := by
  induction v using Value.induct with
  | null => intro out; simp [toJson, putJson]
  | bool b => intro out; simp [toJson, putJson]
  | int i => intro out; simp [toJson, putJson, putInt]
  | float x => intro out; simp [toJson, putJson]
  | string s => intro out; simp [toJson, putJson, Quoted.put_toList]
  | array items ih =>
    intro out
    cases items with
    | nil => simp [toJson, putJson, putJsonItems]
    | cons v rest =>
      obtain ⟨first, others⟩ := List.forall_mem_cons.1 ih
      rw [toJson, putJson_array_cons first others, putJson_array_cons first others]
      rfl
  | map entries ih =>
    intro out
    cases entries with
    | nil => simp [toJson, putJson, putJsonEntries]
    | cons entry rest =>
      obtain ⟨first, others⟩ := List.forall_mem_cons.1 ih
      rw [toJson, putJson_map_cons first others, putJson_map_cons first others]
      rfl

/-! ## The tree -/

/-- What needs room for so many containers is granted where there is as much. -/
def granted {α : Type} (needed depth : Nat) (a : α) : Except Defect α :=
  if needed ≤ depth then .ok a else .error .syntactic

theorem granted_inside {α β : Type} (needed depth : Nat) (a : α) (f : α → β) :
    (do let x ← granted needed depth a; .ok (f x)) = granted (needed + 1) (depth + 1) (f a) := by
  by_cases room : needed ≤ depth <;> simp [granted, room]

theorem granted_both {α β γ : Type} (m n depth : Nat) (a : α) (b : β) (f : α → β → γ) :
    (do let x ← granted m depth a; let y ← granted n depth b; .ok (f x y)) =
      granted (max m n) depth (f a b) := by
  by_cases first : m ≤ depth <;> by_cases second : n ≤ depth <;> simp [granted, first, second]

/-- The strict builder makes this value of the tree, where there is room for it. -/
def Means (t : Tree) (v : Value) : Prop := ∀ depth, t.build strict depth = granted v.depth depth v

/-- The text of a value has a tree that means the value. -/
def Legible (v : Value) : Prop := ∃ t, Written v.toJson.toList t ∧ Means t v

theorem legible_items {rest : List Value} (first : Legible v) (others : ∀ w ∈ rest, Legible w) :
    ∃ ts, Delimited Item ']' (v.toJson.toList ++ (rest.flatMap itemText ++ [']'])) ts ∧
      ∀ depth, Tree.buildItems strict depth ts =
        granted (depthItems (v :: rest)) depth (v :: rest) := by
  induction rest generalizing v with
  | nil =>
    obtain ⟨t, written, means⟩ := first
    refine ⟨[t], .last written.item, fun depth => ?_⟩
    rw [Tree.buildItems, means]
    exact granted_both v.depth 0 depth v [] List.cons
  | cons w rest ih =>
    obtain ⟨t, written, means⟩ := first
    obtain ⟨next, others⟩ := List.forall_mem_cons.1 others
    obtain ⟨ts, each, listed⟩ := ih next others
    refine ⟨t :: ts, ?_, fun depth => ?_⟩
    · simpa [itemText] using Delimited.more written.item each
    · rw [Tree.buildItems, means, listed]
      exact granted_both v.depth (depthItems (w :: rest)) depth v (w :: rest) List.cons

/-- An entry is written without blanks. -/
theorem entry_text {entry : String × Value} (written : Written entry.2.toJson.toList t) :
    Entry (entryText entry) (entry.1, t) := by
  have form := Entry.entry blank_nil (Quoted.spells_escaped entry.1) blank_nil written.item
  simpa [entryText, keyText] using form

theorem legible_entries {entry : String × Value} {rest : Fields} (first : Legible entry.2)
    (others : ∀ entry ∈ rest, Legible entry.2) :
    ∃ ts, Delimited Entry '\x7d'
        (entryText entry ++ (rest.flatMap (fun entry => ',' :: entryText entry) ++ ['\x7d'])) ts ∧
      ∀ depth seen, FreshKeys seen ((entry :: rest).map Prod.fst) →
        Tree.buildEntries strict depth seen ts =
          granted (depthEntries (entry :: rest)) depth (entry :: rest) := by
  induction rest generalizing entry with
  | nil =>
    obtain ⟨t, written, means⟩ := first
    refine ⟨[(entry.1, t)], .last (entry_text written), fun depth seen fresh => ?_⟩
    rw [buildEntries_cons strict depth (freshKeys_cons_iff.1 fresh).1, means]
    exact granted_both entry.2.depth 0 depth entry.2 [] fun v entries => (entry.1, v) :: entries
  | cons next rest ih =>
    obtain ⟨t, written, means⟩ := first
    obtain ⟨second, others⟩ := List.forall_mem_cons.1 others
    obtain ⟨ts, each, listed⟩ := ih second others
    refine ⟨(entry.1, t) :: ts, ?_, fun depth seen fresh => ?_⟩
    · simpa using Delimited.more (entry_text written) each
    · obtain ⟨unseen, later⟩ := freshKeys_cons_iff.1 fresh
      rw [buildEntries_cons strict depth unseen, means, listed depth _ later]
      exact granted_both entry.2.depth (depthEntries (next :: rest)) depth entry.2 (next :: rest)
        fun v entries => (entry.1, v) :: entries

theorem legible_int (i : Int64) : Legible (.int i) := by
  refine ⟨.number (Literal.ofInt i.toInt), ?_, fun depth => ?_⟩
  · have spelled := Literal.spells_toString i.toInt
    simpa [toJson, putJson, putInt] using Written.number spelled
  · have lower := i.le_toInt
    have upper := i.toInt_lt
    rw [Tree.build, Literal.number?_ofInt]
    by_cases natural : 0 ≤ i.toInt
    · rw [if_pos natural, orSyntactic, ok_bind]
      change ofNumber (.natural i.toInt.toNat) = _
      rw [ofNumber, if_pos (by omega), ofNat_toNat_toInt natural]
      rfl
    · rw [if_neg natural]
      rfl

theorem legible {v : Value} (distinct : v.KeysDistinct) (floatless : v.FloatFree) : Legible v := by
  induction v using Value.induct with
  | null => exact ⟨.null, by simpa [toJson, putJson] using Written.null, fun depth => rfl⟩
  | bool b =>
    refine ⟨.bool b, ?_, fun depth => rfl⟩
    have written := Written.bool b
    cases b <;> simpa [toJson, putJson] using written
  | int i => exact legible_int i
  | float x => exact floatless.elim
  | string s =>
    refine ⟨.string s, ?_, fun depth => rfl⟩
    simpa [toJson, putJson, Quoted.put_toList] using Written.string (Quoted.spells_escaped s)
  | array items ih =>
    have legible : ∀ v ∈ items, Legible v := fun v member =>
      ih v member (keysDistinctItems_iff.1 distinct v member)
        (floatFreeItems_iff.1 floatless v member)
    cases items with
    | nil =>
      refine ⟨.array [], ?_, fun depth => by cases depth <;> rfl⟩
      simpa [toJson, putJson, putJsonItems] using Written.emptyArray blank_nil
    | cons v rest =>
      obtain ⟨first, others⟩ := List.forall_mem_cons.1 legible
      obtain ⟨ts, each, listed⟩ := legible_items first others
      refine ⟨.array ts, ?_, fun depth => ?_⟩
      · rw [toJson, putJson_array_cons (putJson_toList v) fun w _ => putJson_toList w]
        exact .array each
      · cases depth with
        | zero => rfl
        | succ depth =>
          rw [Tree.build, listed]
          exact granted_inside (depthItems (v :: rest)) depth (v :: rest) Value.array
  | map entries ih =>
    have legible : ∀ entry ∈ entries, Legible entry.2 := fun entry member =>
      ih entry member (keysDistinctEntries_iff.1 distinct.2 entry member)
        (floatFreeEntries_iff.1 floatless entry member)
    cases entries with
    | nil =>
      refine ⟨.object [], ?_, fun depth => by cases depth <;> rfl⟩
      simpa [toJson, putJson, putJsonEntries] using Written.emptyObject blank_nil
    | cons entry rest =>
      obtain ⟨first, others⟩ := List.forall_mem_cons.1 legible
      obtain ⟨ts, each, listed⟩ := legible_entries first others
      refine ⟨.object ts, ?_, fun depth => ?_⟩
      · rw [toJson, putJson_map_cons (putJson_toList entry.2) fun entry _ => putJson_toList entry.2]
        exact .object each
      · cases depth with
        | zero => rfl
        | succ depth =>
          rw [Tree.build, listed depth ∅ (freshKeys_empty_iff.2 distinct.1)]
          exact granted_inside (depthEntries (entry :: rest)) depth (entry :: rest) Value.map

/-- A value without floats, whatever is in its texts and however large its integers, is read back from
its text with the order of all its entries, if it nests at most 127 containers; the text of a deeper
one is refused. -/
theorem ofJson_toJson {v : Value} (distinct : v.KeysDistinct) (floatless : v.FloatFree) :
    ofJson v.toJson = if v.depth ≤ 127 then .ok v else .error .syntactic := by
  obtain ⟨t, written, means⟩ := legible distinct floatless
  rw [ofJson, read_eq_build strict written.item, means]
  rfl

/-- All that is escaped, a character beyond 16 bits, both ends of the integers and empty containers; and
a container too many. -/
theorem ofJson_toJson_edges :
    let edges : Value := .map
      [("\x00\x08\t\n\x0c\r\x1f\"\\/\x7f", .array [.int Int64.minValue, .int Int64.maxValue]),
        ("", .string "😀"), ("a", .map []), ("A", .array [.null, .bool true])]
    ofJson edges.toJson = .ok edges ∧ ofJson (nest 128 edges).toJson = .error .syntactic := by
  intro edges
  have distinct : edges.KeysDistinct := by
    simp [edges, KeysDistinct, KeysDistinctEntries, KeysDistinctItems]
  have floatless : edges.FloatFree := by
    simp [edges, FloatFree, FloatFreeEntries, FloatFreeItems]
  have shallow : edges.depth = 2 := by
    simp [edges, depth, depthEntries, depthItems]
  constructor
  · rw [ofJson_toJson distinct floatless, shallow]
    rfl
  · rw [ofJson_toJson (nest_keysDistinct distinct) (nest_floatFree floatless), nest_depth, shallow]
    rfl

end Patchbay.Value
