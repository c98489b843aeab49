import Patchbay.Proofs.Json.Routes

/-!
# Values as generic documents

A value is converted to a document and back with nothing lost but its floats that are not finite, which
become null: the kinds of its numbers, the bits of its other floats and the order of its entries stay at
every level. The document has the same text as the value, as both are written by the same steps.
-/

namespace Patchbay

namespace Value

mutual

/-- The value with null in place of every float that is not finite. -/
def finitePart : Value → Value
  | .float x => if x.isFinite then .float x else .null
  | .array items => .array (finiteItems items)
  | .map entries => .map (finiteEntries entries)
  | v => v

def finiteItems : List Value → List Value
  | [] => []
  | v :: rest => finitePart v :: finiteItems rest

def finiteEntries : List (String × Value) → List (String × Value)
  | [] => []
  | (key, v) :: rest => (key, finitePart v) :: finiteEntries rest

end

mutual

/-- Every float, at any level, is finite. -/
def Finite : Value → Prop
  | .float x => x.isFinite = true
  | .array items => FiniteItems items
  | .map entries => FiniteEntries entries
  | _ => True

def FiniteItems : List Value → Prop
  | [] => True
  | v :: rest => Finite v ∧ FiniteItems rest

def FiniteEntries : List (String × Value) → Prop
  | [] => True
  | (_, v) :: rest => Finite v ∧ FiniteEntries rest

end

/-! ## What is lost -/

theorem finiteItems_eq_self_iff {items : List Value}
    (each : ∀ v ∈ items, v.finitePart = v ↔ v.Finite) :
    finiteItems items = items ↔ FiniteItems items := by
  induction items with
  | nil => simp [finiteItems, FiniteItems]
  | cons v rest ih =>
    obtain ⟨first, others⟩ := List.forall_mem_cons.1 each
    rw [finiteItems, FiniteItems, List.cons.injEq, first, ih others]

theorem finiteEntries_eq_self_iff {entries : Fields}
    (each : ∀ entry ∈ entries, entry.2.finitePart = entry.2 ↔ entry.2.Finite) :
    finiteEntries entries = entries ↔ FiniteEntries entries := by
  induction entries with
  | nil => simp [finiteEntries, FiniteEntries]
  | cons entry rest ih =>
    obtain ⟨first, others⟩ := List.forall_mem_cons.1 each
    rw [finiteEntries, FiniteEntries, List.cons.injEq, ih others, ← first]
    simp [Prod.ext_iff]

theorem finitePart_eq_self_iff (v : Value) : v.finitePart = v ↔ v.Finite := by
  induction v using Value.induct with
  | null | bool _ | int _ | string _ => simp [finitePart, Finite]
  | float x => cases finite : x.isFinite <;> simp [finitePart, Finite, finite]
  | array items ih => simpa [finitePart, Finite] using finiteItems_eq_self_iff ih
  | map entries ih => simpa [finitePart, Finite] using finiteEntries_eq_self_iff ih

end Value

namespace Json.Document

open Value (finitePart finiteItems finiteEntries putJson putJsonItems putJsonEntries)

/-! ## There and back -/

/-- An integer of the value's range is an integer again. -/
theorem toValue_integer (i : Int64) : (integer i).toValue = .int i := by
  have upper := i.toInt_lt
  rw [integer]
  split
  · next natural => rw [toValue, if_pos (by omega), Value.ofNat_toNat_toInt natural]
  · rw [toValue]

theorem toItems_ofItems {items : List Value} (each : ∀ v ∈ items, (ofValue v).toValue = v.finitePart) :
    toItems (ofItems items) = finiteItems items := by
  induction items with
  | nil => rfl
  | cons v rest ih =>
    obtain ⟨first, others⟩ := List.forall_mem_cons.1 each
    rw [ofItems, toItems, first, ih others, finiteItems]

theorem toFields_ofFields {entries : Fields}
    (each : ∀ entry ∈ entries, (ofValue entry.2).toValue = entry.2.finitePart) :
    toFields (ofFields entries) = finiteEntries entries := by
  induction entries with
  | nil => rfl
  | cons entry rest ih =>
    obtain ⟨first, others⟩ := List.forall_mem_cons.1 each
    rw [ofFields, toFields, first, ih others, finiteEntries]

theorem toValue_ofValue (v : Value) : (ofValue v).toValue = v.finitePart := by
  induction v using Value.induct with
  | null | bool _ | string _ => simp [ofValue, toValue, finitePart]
  | int i =>
    rw [ofValue, toValue_integer]
    rfl
  | float x => cases finite : x.isFinite <;> simp [ofValue, toValue, finitePart, finite]
  | array items ih => rw [ofValue, toValue, toItems_ofItems ih, finitePart]
  | map entries ih => rw [ofValue, toValue, toFields_ofFields ih, finitePart]

/-! ## The text -/

theorem put_integer (out : String) (i : Int64) : put out (integer i) = putInt out i.toInt := by
  rw [integer]
  split
  · next natural => rw [put, Int.toNat_of_nonneg natural]
  · rw [put]

theorem putItems_ofItems {items : List Value}
    (each : ∀ v ∈ items, ∀ out, put out (ofValue v) = putJson out v) (out : String)
    (first : Bool) : putItems out first (ofItems items) = putJsonItems out first items := by
  induction items generalizing out first with
  | nil => rfl
  | cons v rest ih =>
    obtain ⟨here, others⟩ := List.forall_mem_cons.1 each
    rw [ofItems, putItems, here, ih others, putJsonItems]

theorem putEntries_ofFields {entries : Fields}
    (each : ∀ entry ∈ entries, ∀ out, put out (ofValue entry.2) = putJson out entry.2)
    (out : String) (first : Bool) :
    putEntries out first (ofFields entries) = putJsonEntries out first entries := by
  induction entries generalizing out first with
  | nil => rfl
  | cons entry rest ih =>
    obtain ⟨here, others⟩ := List.forall_mem_cons.1 each
    rw [ofFields, putEntries, here, ih others, putJsonEntries]

theorem put_ofValue (v : Value) (out : String) : put out (ofValue v) = putJson out v := by
  induction v using Value.induct generalizing out with
  | null | bool _ | string _ => rw [ofValue, put, putJson]
  | int i => rw [ofValue, put_integer, putJson]
  | float x => cases finite : x.isFinite <;> simp [ofValue, put, putJson, floatText, finite]
  | array items ih => rw [ofValue, put, putItems_ofItems ih, putJson]
  | map entries ih => rw [ofValue, put, putEntries_ofFields ih, putJson]

/-! ## Collecting -/

theorem keys_ofFields (entries : Fields) :
    (ofFields entries).map Prod.fst = entries.map Prod.fst := by
  induction entries with
  | nil => rfl
  | cons entry rest ih => rw [ofFields, List.map_cons, List.map_cons, ih]

theorem keys_toFields (entries : List (String × Document)) :
    (toFields entries).map Prod.fst = entries.map Prod.fst := by
  rw [toFields_eq_map, List.map_map]
  rfl

/-- A value that is converted to a document and back has null in place of its floats that are not
finite, and is the same in all else; so it is the same altogether exactly when its floats are finite. The
document has the text of the value. Both ways the entries of a map may as well be collected one by one,
as its keys are different: they come out in their order. -/
theorem document_round_trip (v : Value) :
    (ofValue v).toValue = v.finitePart ∧ ((ofValue v).toValue = v ↔ v.Finite) ∧
      (ofValue v).render = v.toJson ∧
      ∀ entries : Fields, (entries.map Prod.fst).Nodup →
        ofEntries (ofFields entries) = ofValue (.map entries) ∧
          Fields.ofList (toFields (ofFields entries)) = toFields (ofFields entries) := by
  refine ⟨toValue_ofValue v, ?_, put_ofValue v "", fun entries distinct => ⟨?_, ?_⟩⟩
  · rw [toValue_ofValue, Value.finitePart_eq_self_iff]
  · rw [ofEntries_of_nodup ((keys_ofFields entries).symm ▸ distinct), ofValue]
  · have keys := (keys_toFields (ofFields entries)).trans (keys_ofFields entries)
    exact Value.ofList_of_nodup (keys ▸ distinct)

/-- Only what is not finite is lost: a negative zero and both ends of the integers stay, and keys that
are not in the order of the alphabet. -/
theorem document_round_trip_edges :
    let entries : Fields :=
      [("z", .array [.float .nan, .float (.zero true), .float (.infinity true)]),
        ("a", .array [.int Int64.minValue, .int Int64.maxValue])]
    (ofValue (.map entries)).toValue =
        .map [("z", .array [.null, .float (.zero true), .null]),
          ("a", .array [.int Int64.minValue, .int Int64.maxValue])] ∧
      (entries.map Prod.fst).Nodup ∧ ofEntries (ofFields entries) = ofValue (.map entries) := by
  intro entries
  have distinct : (entries.map Prod.fst).Nodup := by decide
  obtain ⟨same, -, -, collected⟩ := document_round_trip (.map entries)
  exact ⟨same, distinct, (collected entries distinct).1⟩

end Json.Document

end Patchbay
