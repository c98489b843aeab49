import Mathlib.Algebra.Order.Group.Nat
import Std.Data.HashSet
import Patchbay.Bytes
import Patchbay.Value

/-!
# Properties of values

An induction over values, and what the depth of a value, the distinctness of its keys, its being
short and its having no float say about the values inside it.
-/

namespace Patchbay.Value

/-- What stands in an entry is smaller than all entries. -/
theorem sizeOf_lt_of_entry {α : Type} [SizeOf α] {entry : String × α} {entries : List (String × α)}
    (member : entry ∈ entries) : sizeOf entry.2 < sizeOf entries := by
  have inside := List.sizeOf_lt_of_mem member
  have part : sizeOf entry.2 < sizeOf entry := by
    obtain ⟨key, a⟩ := entry
    simp only [Prod.mk.sizeOf_spec]
    omega
  omega

/-- A property that holds of an array when it holds of its items, and of a map when it holds of what
stands in its entries, holds of every value that is nested so. -/
@[elab_as_elim]
theorem induct {motive : Value → Prop} (null : motive .null) (bool : ∀ b, motive (.bool b))
    (int : ∀ i, motive (.int i)) (float : ∀ x, motive (.float x))
    (string : ∀ s, motive (.string s))
    (array : ∀ items : List Value, (∀ v ∈ items, motive v) → motive (.array items))
    (map : ∀ entries : Fields, (∀ entry ∈ entries, motive entry.2) → motive (.map entries))
    (v : Value) : motive v :=
  match v with
  | .null => null
  | .bool b => bool b
  | .int i => int i
  | .float x => float x
  | .string s => string s
  | .array items => array items fun v _ => induct null bool int float string array map v
  | .map entries =>
    map entries fun entry _ => induct null bool int float string array map entry.2
termination_by v
decreasing_by
  · decreasing_tactic
  · have inside := sizeOf_lt_of_entry ‹entry ∈ entries›
    simp only [Value.map.sizeOf_spec]
    omega

/-! ## Integers -/

/-- An integer that is not negative is made of its number. -/
theorem ofNat_toNat_toInt {i : Int64} (natural : 0 ≤ i.toInt) : Int64.ofNat i.toInt.toNat = i := by
  rw [← Int64.ofInt_eq_ofNat, Int.toNat_of_nonneg natural, Int64.ofInt_toInt]

/-! ## Keys -/

theorem keysDistinctItems_iff {items : List Value} :
    KeysDistinctItems items ↔ ∀ v ∈ items, v.KeysDistinct := by
  induction items with
  | nil => simp [KeysDistinctItems]
  | cons v rest ih => simp [KeysDistinctItems, ih]

theorem keysDistinctEntries_iff {entries : Fields} :
    KeysDistinctEntries entries ↔ ∀ entry ∈ entries, entry.2.KeysDistinct := by
  induction entries with
  | nil => simp [KeysDistinctEntries]
  | cons entry rest ih => simp [KeysDistinctEntries, ih]

/-- Different keys, none of which was `seen`. The readers go through the keys of a map so. -/
def FreshKeys (seen : Std.HashSet String) (keys : List String) : Prop :=
  keys.Nodup ∧ ∀ key ∈ keys, key ∉ seen

theorem freshKeys_empty_iff {keys : List String} : FreshKeys ∅ keys ↔ keys.Nodup := by
  simp [FreshKeys]

theorem freshKeys_cons_iff {seen : Std.HashSet String} {key : String} {keys : List String} :
    FreshKeys seen (key :: keys) ↔ key ∉ seen ∧ FreshKeys (seen.insert key) keys := by
  simp only [FreshKeys, List.nodup_cons, List.forall_mem_cons, Std.HashSet.mem_insert, not_or,
    beq_iff_eq]
  constructor
  · rintro ⟨⟨apart, distinct⟩, first, others⟩
    refine ⟨first, distinct, fun k member => ⟨?_, others k member⟩⟩
    rintro rfl
    exact apart member
  · rintro ⟨first, distinct, others⟩
    exact ⟨⟨fun member => (others key member).1 rfl, distinct⟩, first,
      fun k member => (others k member).2⟩

/-- A key that is new is written behind the others. -/
theorem set_of_not_mem {fields : Fields} {key : String} (v : Value)
    (fresh : key ∉ fields.map Prod.fst) : fields.set key v = fields ++ [(key, v)] := by
  induction fields with
  | nil => rfl
  | cons entry rest ih =>
    obtain ⟨apart, fresh⟩ := not_or.1 (List.mem_cons.not.1 fresh)
    rw [Fields.set, if_neg (Ne.symm apart), ih fresh, List.cons_append]

/-- Entries with different keys are collected in their order. -/
theorem ofList_of_nodup {entries : List (String × Value)} (distinct : (entries.map Prod.fst).Nodup) :
    Fields.ofList entries = entries := by
  suffices behind : ∀ before : Fields, ((before ++ entries).map Prod.fst).Nodup →
      entries.foldl (fun fields entry => Fields.set fields entry.1 entry.2) before =
        before ++ entries from behind [] distinct
  clear distinct
  induction entries with
  | nil => simp
  | cons entry rest ih =>
    intro before distinct
    have fresh : entry.1 ∉ before.map Prod.fst := by
      rw [List.map_append, List.map_cons, List.nodup_append] at distinct
      exact fun member => distinct.2.2 _ member _ List.mem_cons_self rfl
    rw [List.append_cons] at distinct ⊢
    rw [List.foldl_cons, set_of_not_mem entry.2 fresh, ih _ distinct]

/-! ## Depth -/

theorem depthItems_le_iff {items : List Value} {room : Nat} :
    depthItems items ≤ room ↔ ∀ v ∈ items, v.depth ≤ room := by
  induction items with
  | nil => simp [depthItems]
  | cons v rest ih => simp [depthItems, ih]

theorem depthEntries_le_iff {entries : Fields} {room : Nat} :
    depthEntries entries ≤ room ↔ ∀ entry ∈ entries, entry.2.depth ≤ room := by
  induction entries with
  | nil => simp [depthEntries]
  | cons entry rest ih => simp [depthEntries, ih]

/-! ## Lengths -/

/-- A length that four bytes hold. -/
abbrev Countable (n : Nat) : Prop := n < 2 ^ 32

mutual

/-- Every text, array and map, at any level, has fewer than `2 ^ 32` bytes, items or entries. -/
def Short : Value → Prop
  | string s => Countable (Bytes.ofText s).length
  | array items => Countable items.length ∧ ShortItems items
  | map entries => Countable entries.length ∧ ShortEntries entries
  | _ => True

def ShortItems : List Value → Prop
  | [] => True
  | v :: rest => Short v ∧ ShortItems rest

def ShortEntries : List (String × Value) → Prop
  | [] => True
  | (key, v) :: rest => Countable (Bytes.ofText key).length ∧ Short v ∧ ShortEntries rest

end

theorem shortItems_iff {items : List Value} : ShortItems items ↔ ∀ v ∈ items, v.Short := by
  induction items with
  | nil => simp [ShortItems]
  | cons v rest ih => simp [ShortItems, ih]

theorem shortEntries_iff {entries : Fields} :
    ShortEntries entries ↔
      ∀ entry ∈ entries, Countable (Bytes.ofText entry.1).length ∧ entry.2.Short := by
  induction entries with
  | nil => simp [ShortEntries]
  | cons entry rest ih => simp [ShortEntries, ih, and_assoc]

/-! ## Floats -/

mutual

/-- No float stands at any level. -/
def FloatFree : Value → Prop
  | float _ => False
  | array items => FloatFreeItems items
  | map entries => FloatFreeEntries entries
  | _ => True

def FloatFreeItems : List Value → Prop
  | [] => True
  | v :: rest => FloatFree v ∧ FloatFreeItems rest

def FloatFreeEntries : List (String × Value) → Prop
  | [] => True
  | (_, v) :: rest => FloatFree v ∧ FloatFreeEntries rest

end

theorem floatFreeItems_iff {items : List Value} :
    FloatFreeItems items ↔ ∀ v ∈ items, v.FloatFree := by
  induction items with
  | nil => simp [FloatFreeItems]
  | cons v rest ih => simp [FloatFreeItems, ih]

theorem floatFreeEntries_iff {entries : Fields} :
    FloatFreeEntries entries ↔ ∀ entry ∈ entries, entry.2.FloatFree := by
  induction entries with
  | nil => simp [FloatFreeEntries]
  | cons entry rest ih => simp [FloatFreeEntries, ih]

/-! ## Nesting -/

/-- A value inside `n` arrays of one item. -/
def nest (n : Nat) (v : Value) : Value := n.repeat (fun inner => .array [inner]) v

variable {v w : Value} {n : Nat}

theorem nest_depth : (nest n v).depth = n + v.depth := by
  induction n with
  | zero => exact (Nat.zero_add _).symm
  | succ n ih =>
    change max (nest n v).depth 0 + 1 = _
    rw [ih, Nat.max_zero]
    omega

theorem nest_keysDistinct (distinct : v.KeysDistinct) : (nest n v).KeysDistinct := by
  induction n with
  | zero => exact distinct
  | succ n ih => exact ⟨ih, trivial⟩

theorem nest_short (short : v.Short) : (nest n v).Short := by
  induction n with
  | zero => exact short
  | succ n ih =>
    have one : Countable 1 := by decide
    exact ⟨one, ih, trivial⟩

theorem nest_floatFree (floatless : v.FloatFree) : (nest n v).FloatFree := by
  induction n with
  | zero => exact floatless
  | succ n ih => exact ⟨ih, trivial⟩

theorem nest_inj (same : nest n v = nest n w) : v = w := by
  induction n with
  | zero => exact same
  | succ n ih =>
    injection same with items
    injection items with inner
    exact ih inner

end Patchbay.Value
