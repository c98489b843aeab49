import Mathlib.Algebra.Order.Group.Multiset
import Patchbay.Table

/-!
# Facts about tables

What the operations on a table do to its entries, to its keys and to a quantity that is summed over
its entries. Writing under a key that exists needs no uniqueness: looking up and writing meet the
same entry. Erasing and modifying reach every entry under a key, so there the keys have to be
unique.
-/

namespace Patchbay.Table

variable {κ α β : Type}

/-! ## Sums -/

/-- What the entries of a table amount to, taken together. -/
def total (f : α → Multiset β) : Table κ α → Multiset β
  | [] => 0
  | entry :: rest => f entry.2 + total f rest

@[simp] theorem total_nil (f : α → Multiset β) : total f ([] : Table κ α) = 0 := rfl

@[simp] theorem total_append (f : α → Multiset β) (t u : Table κ α) :
    total f (t ++ u) = total f t + total f u := by
  induction t with
  | nil => simp
  | cons entry rest ih => simp only [List.cons_append, total, ih, add_assoc]

theorem mem_total {f : α → Multiset β} {t : Table κ α} {b : β} :
    b ∈ total f t ↔ ∃ entry ∈ t, b ∈ f entry.2 := by
  induction t with
  | nil => simp
  | cons entry rest ih => simp [total, ih]

variable [DecidableEq κ]

/-! ## Entries -/

@[simp] theorem find?_nil (k : κ) : find? ([] : Table κ α) k = none := rfl

theorem find?_cons (entry : κ × α) (t : Table κ α) (k : κ) :
    find? (entry :: t) k = if entry.1 = k then some entry.2 else find? t k := rfl

theorem put_cons (entry : κ × α) (t : Table κ α) (k : κ) (a : α) :
    put (entry :: t) k a = if entry.1 = k then (entry.1, a) :: t else entry :: put t k a := rfl

/-- What is found under a key stands in the table. -/
theorem mem_of_find? {t : Table κ α} {k : κ} {a : α} (h : find? t k = some a) : (k, a) ∈ t := by
  induction t with
  | nil => cases h
  | cons entry rest ih =>
    rw [find?_cons] at h
    split at h
    · next same =>
      cases h
      exact same ▸ List.mem_cons_self
    · exact List.mem_cons_of_mem _ (ih h)

/-- With unique keys, an entry is what is found under its key. -/
theorem find?_of_mem {t : Table κ α} {k : κ} {a : α} (unique : (keys t).Nodup)
    (h : (k, a) ∈ t) : find? t k = some a := by
  induction t with
  | nil => cases h
  | cons entry rest ih =>
    rw [find?_cons]
    have apart : entry.1 ∉ keys rest ∧ (keys rest).Nodup := List.nodup_cons.1 unique
    rcases List.mem_cons.1 h with same | later
    · subst same
      exact if_pos rfl
    · have other : entry.1 ≠ k := fun same =>
        apart.1 (same ▸ List.mem_map.2 ⟨(k, a), later, rfl⟩)
      rw [if_neg other]
      exact ih apart.2 later

/-- Writing under a key changes what is found there, and nowhere else. -/
theorem find?_put (t : Table κ α) (k j : κ) (b : α) :
    find? (put t k b) j = if k = j then some b else find? t j := by
  induction t with
  | nil => rfl
  | cons entry rest ih =>
    rw [put_cons]
    by_cases same : entry.1 = k
    · rw [if_pos same, find?_cons, find?_cons, same]
      split <;> rfl
    · rw [if_neg same, find?_cons, find?_cons, ih]
      by_cases here : entry.1 = j
      · have other : k ≠ j := fun equal => same (here.trans equal.symm)
        rw [if_pos here, if_neg other, if_pos here]
      · rw [if_neg here, if_neg here]

/-- Writing under a key under which nothing stands keeps all that was found. -/
theorem find?_put_eq_some_iff {t : Table κ α} {k : κ} (fresh : find? t k = none) {j : κ} {a b : α} :
    find? (put t k a) j = some b ↔ find? t j = some b ∨ j = k ∧ b = a := by
  rw [find?_put]
  by_cases same : k = j
  · subst same
    simp [fresh, eq_comm]
  · simp [same, Ne.symm same]

/-- What holds of the entry that is written and of the others holds of all that is found then. -/
theorem of_find?_put {P : κ → α → Prop} {t : Table κ α} {k : κ} {a : α} (here : P k a)
    (others : ∀ j b, find? t j = some b → k ≠ j → P j b) {j : κ} {b : α}
    (h : find? (put t k a) j = some b) : P j b := by
  rw [find?_put] at h
  split at h
  · next same =>
    cases h
    exact same ▸ here
  · next other => exact others j b h other

theorem exists_find?_put {t : Table κ α} {j : κ} (k : κ) (a : α) (h : ∃ b, find? t j = some b) :
    ∃ b, find? (put t k a) j = some b := by
  rw [find?_put]
  split
  · exact ⟨a, rfl⟩
  · exact h

theorem find?_modify (t : Table κ α) (k j : κ) (f : α → α) :
    find? (modify t k f) j = (find? t j).map fun a => if k = j then f a else a := by
  induction t with
  | nil => rfl
  | cons entry rest ih =>
    have head : modify (entry :: rest) k f =
        (entry.1, if entry.1 = k then f entry.2 else entry.2) :: modify rest k f := by
      simp only [modify, List.map_cons]
      split <;> rfl
    rw [head, find?_cons, find?_cons, ih]
    by_cases here : entry.1 = j
    · rw [if_pos here, if_pos here, Option.map_some, here]
      simp only [eq_comm]
    · rw [if_neg here, if_neg here]

theorem find?_erase (t : Table κ α) (k j : κ) :
    find? (erase t k) j = if k = j then none else find? t j := by
  induction t with
  | nil => simp [erase]
  | cons entry rest ih =>
    by_cases same : entry.1 = k
    · have dropped : erase (entry :: rest) k = erase rest k := by simp [erase, same]
      rw [dropped, ih, find?_cons, same]
      split <;> rfl
    · have stays : erase (entry :: rest) k = entry :: erase rest k := by simp [erase, same]
      rw [stays, find?_cons, find?_cons, ih]
      by_cases here : entry.1 = j
      · have other : k ≠ j := fun equal => same (here.trans equal.symm)
        rw [if_pos here, if_neg other, if_pos here]
      · rw [if_neg here, if_neg here]

/-- Entries that are added behind are found where nothing was found before. -/
theorem find?_append (t u : Table κ α) (k : κ) : find? (t ++ u) k = (find? t k).or (find? u k) := by
  induction t with
  | nil => rfl
  | cons entry rest ih =>
    rw [List.cons_append, find?_cons, find?_cons]
    split
    · rfl
    · exact ih

theorem mem_put {t : Table κ α} {k : κ} {a : α} {entry : κ × α} (h : entry ∈ put t k a) :
    entry = (k, a) ∨ entry ∈ t := by
  induction t with
  | nil => exact .inl (List.mem_singleton.1 h)
  | cons first rest ih =>
    rw [put_cons] at h
    split at h
    · next same =>
      rcases List.mem_cons.1 h with here | later
      · exact .inl (same ▸ here)
      · exact .inr (List.mem_cons_of_mem _ later)
    · rcases List.mem_cons.1 h with here | later
      · exact .inr (here ▸ List.mem_cons_self)
      · exact (ih later).imp_right (List.mem_cons_of_mem _)

theorem exists_of_mem_keys {t : Table κ α} {k : κ} (h : k ∈ keys t) : ∃ a, find? t k = some a := by
  induction t with
  | nil => cases h
  | cons entry rest ih =>
    rw [find?_cons]
    by_cases same : entry.1 = k
    · exact ⟨entry.2, if_pos same⟩
    · rw [if_neg same]
      rcases List.mem_cons.1 h with here | later
      · exact absurd here.symm same
      · exact ih later

/-! ## Keys -/

theorem mem_keys_iff {t : Table κ α} {k : κ} : k ∈ keys t ↔ ∃ a, find? t k = some a := by
  refine ⟨exists_of_mem_keys, ?_⟩
  rintro ⟨a, found⟩
  exact List.mem_map_of_mem (mem_of_find? found)

theorem has_iff {t : Table κ α} {k : κ} : has t k = true ↔ k ∈ keys t := by
  rw [has, Option.isSome_iff_exists, mem_keys_iff]

theorem find?_eq_none_iff {t : Table κ α} {k : κ} : find? t k = none ↔ k ∉ keys t := by
  rw [mem_keys_iff, Option.eq_none_iff_forall_ne_some, not_exists]

/-- Writing under a key that exists keeps the keys. -/
theorem keys_put {t : Table κ α} {k : κ} {a : α} (b : α) (h : find? t k = some a) :
    keys (put t k b) = keys t := by
  induction t with
  | nil => cases h
  | cons entry rest ih =>
    rw [find?_cons] at h
    rw [put_cons]
    split at h
    · next same => rw [if_pos same]; rfl
    · next other =>
      rw [if_neg other]
      exact congrArg (entry.1 :: ·) (ih h)

/-- Writing what looks like what was there keeps the looks of all entries. -/
theorem map_put {t : Table κ α} {k : κ} {a b : α} (h : find? t k = some a) {f : α → β}
    (same : f b = f a) : (put t k b).map (fun entry => f entry.2) = t.map fun entry => f entry.2 := by
  induction t with
  | nil => cases h
  | cons entry rest ih =>
    rw [find?_cons] at h
    rw [put_cons]
    split at h
    · next here =>
      cases h
      rw [if_pos here, List.map_cons, List.map_cons, same]
    · next other => rw [if_neg other, List.map_cons, List.map_cons, ih h]

theorem put_of_not_mem {t : Table κ α} {k : κ} (a : α) (absent : k ∉ keys t) :
    put t k a = t ++ [(k, a)] := by
  induction t with
  | nil => rfl
  | cons entry rest ih =>
    have apart : entry.1 ≠ k ∧ k ∉ keys rest := by
      simpa [keys, eq_comm] using absent
    rw [put_cons, if_neg apart.1]
    exact congrArg (entry :: ·) (ih apart.2)

theorem keys_put_of_not_mem {t : Table κ α} {k : κ} (a : α) (absent : k ∉ keys t) :
    keys (put t k a) = keys t ++ [k] := by
  rw [put_of_not_mem a absent]
  exact List.map_append

/-- Writing keeps the keys unique. -/
theorem nodup_keys_put {t : Table κ α} (unique : (keys t).Nodup) (k : κ) (a : α) :
    (keys (put t k a)).Nodup := by
  by_cases there : k ∈ keys t
  · obtain ⟨b, found⟩ := exists_of_mem_keys there
    rwa [keys_put a found]
  · rw [keys_put_of_not_mem a there]
    exact List.nodup_append.2
      ⟨unique, List.nodup_singleton k, fun j before l last same =>
        there (List.mem_singleton.1 last ▸ same ▸ before)⟩

theorem keys_modify (t : Table κ α) (k : κ) (f : α → α) : keys (modify t k f) = keys t := by
  simp only [keys, modify, List.map_map]
  refine List.map_congr_left fun entry _ => ?_
  simp only [Function.comp]
  split <;> rfl

theorem keys_erase (t : Table κ α) (k : κ) : keys (erase t k) = (keys t).filter (· ≠ k) := by
  rw [keys, erase, keys, List.filter_map]
  rfl

theorem keys_erase_sublist (t : Table κ α) (k : κ) : (keys (erase t k)).Sublist (keys t) :=
  List.filter_sublist.map Prod.fst

/-- The keys of a table are unique numbers below a bound. -/
structure Below (bound : Nat) (t : Table Nat α) : Prop where
  unique : (keys t).Nodup
  below : ∀ k ∈ keys t, k < bound

namespace Below

variable {bound : Nat} {t : Table Nat α}

theorem nil (bound : Nat) : Below bound ([] : Table Nat α) := ⟨List.nodup_nil, by simp [keys]⟩

theorem mono (h : Below bound t) {larger : Nat} (le : bound ≤ larger) : Below larger t :=
  ⟨h.unique, fun k member => Nat.lt_of_lt_of_le (h.below k member) le⟩

theorem of_keys_eq {u : Table Nat β} (h : Below bound t) (same : keys u = keys t) :
    Below bound u := ⟨same ▸ h.unique, same ▸ h.below⟩

theorem put (h : Below bound t) {k : Nat} {a : α} (b : α) (found : find? t k = some a) :
    Below bound (put t k b) := h.of_keys_eq (keys_put b found)

theorem modify (h : Below bound t) (k : Nat) (f : α → α) : Below bound (modify t k f) :=
  h.of_keys_eq (keys_modify t k f)

theorem erase (h : Below bound t) (k : Nat) : Below bound (erase t k) :=
  ⟨(keys_erase_sublist t k).nodup h.unique,
    fun key member => h.below key ((keys_erase_sublist t k).subset member)⟩

/-- The bound itself is a key that is still free. -/
theorem append (h : Below bound t) (a : α) : Below (bound + 1) (t ++ [(bound, a)]) := by
  have split : keys (t ++ [(bound, a)]) = keys t ++ [bound] := by simp [keys]
  refine ⟨?_, ?_⟩
  · rw [split, List.nodup_append]
    refine ⟨h.unique, List.nodup_singleton _, fun k member b last => ?_⟩
    have := h.below k member
    have := List.mem_singleton.1 last
    omega
  · intro k member
    rw [split, List.mem_append, List.mem_singleton] at member
    rcases member with old | rfl
    · have := h.below k old
      omega
    · omega

end Below

/-! ## One entry in a sum -/

/-- A found entry is one part of the sum, and writing under its key replaces that part. -/
theorem total_put (f : α → Multiset β) {t : Table κ α} {k : κ} {a : α} (h : find? t k = some a) :
    ∃ rest, total f t = f a + rest ∧ ∀ b, total f (put t k b) = f b + rest := by
  induction t with
  | nil => cases h
  | cons entry tail ih =>
    rw [find?_cons] at h
    split at h
    · next same =>
      cases h
      refine ⟨total f tail, rfl, fun b => ?_⟩
      rw [put_cons, if_pos same]
      rfl
    · next other =>
      obtain ⟨rest, before, after⟩ := ih h
      refine ⟨f entry.2 + rest, ?_, fun b => ?_⟩
      · rw [total, before, add_left_comm]
      · rw [put_cons, if_neg other, total, after b, add_left_comm]

theorem erase_of_not_mem {t : Table κ α} {k : κ} (absent : k ∉ keys t) : erase t k = t :=
  List.filter_eq_self.2 fun entry member => by
    have other : entry.1 ≠ k := fun same => absent (same ▸ List.mem_map_of_mem member)
    simpa using other

theorem modify_of_not_mem {t : Table κ α} {k : κ} (f : α → α) (absent : k ∉ keys t) :
    modify t k f = t := by
  have unchanged : ∀ entry ∈ t, (if entry.1 = k then (entry.1, f entry.2) else entry) = entry := by
    intro entry member
    have other : entry.1 ≠ k := fun same => absent (same ▸ List.mem_map_of_mem member)
    exact if_neg other
  exact (List.map_congr_left unchanged).trans (List.map_id t)

/-- Erasing a found entry takes its part out of the sum. -/
theorem total_erase (f : α → Multiset β) {t : Table κ α} {k : κ} {a : α}
    (unique : (keys t).Nodup) (h : find? t k = some a) : total f t = f a + total f (erase t k) := by
  induction t with
  | nil => cases h
  | cons entry tail ih =>
    have apart : entry.1 ∉ keys tail ∧ (keys tail).Nodup := List.nodup_cons.1 unique
    rw [find?_cons] at h
    split at h
    · next same =>
      cases h
      have absent : k ∉ keys tail := same ▸ apart.1
      have gone : erase (entry :: tail) k = erase tail k := by simp [erase, same]
      rw [gone, erase_of_not_mem absent, total]
    · next other =>
      have kept : erase (entry :: tail) k = entry :: erase tail k := by simp [erase, other]
      rw [kept, total, total, ih apart.2 h, add_left_comm]

/-- What stands under a key amounts to, nothing if there is no entry. -/
def part (f : α → Multiset β) (t : Table κ α) (k : κ) : Multiset β := (find? t k).elim 0 f

theorem part_cons (f : α → Multiset β) (entry : κ × α) (t : Table κ α) (k : κ) :
    part f (entry :: t) k = if entry.1 = k then f entry.2 else part f t k := by
  unfold part
  rw [find?_cons]
  split <;> rfl

theorem part_le_total (f : α → Multiset β) (t : Table κ α) (k : κ) : part f t k ≤ total f t := by
  induction t with
  | nil => exact le_refl 0
  | cons entry tail ih =>
    rw [part_cons, total]
    split
    · exact Multiset.le_add_right _ _
    · exact ih.trans (Multiset.le_add_left _ _)

/-- The parts under two keys are there side by side. -/
theorem part_add_part_le (f : α → Multiset β) (t : Table κ α) {k j : κ} (apart : k ≠ j) :
    part f t k + part f t j ≤ total f t := by
  induction t with
  | nil => exact le_refl 0
  | cons entry tail ih =>
    rw [part_cons, part_cons, total]
    by_cases first : entry.1 = k
    · have other : entry.1 ≠ j := fun same => apart (first.symm.trans same)
      rw [if_pos first, if_neg other]
      exact add_le_add (le_refl _) (part_le_total f tail j)
    · rw [if_neg first]
      by_cases second : entry.1 = j
      · rw [if_pos second, add_comm]
        exact add_le_add (le_refl _) (part_le_total f tail k)
      · rw [if_neg second]
        exact ih.trans (Multiset.le_add_left _ _)

/-- Modifying a found entry changes its part of the sum only. -/
theorem total_modify (f : α → Multiset β) {t : Table κ α} {k : κ} {a : α} (g : α → α)
    (unique : (keys t).Nodup) (h : find? t k = some a) :
    ∃ rest, total f t = f a + rest ∧ total f (modify t k g) = f (g a) + rest := by
  induction t with
  | nil => cases h
  | cons entry tail ih =>
    have apart : entry.1 ∉ keys tail ∧ (keys tail).Nodup := List.nodup_cons.1 unique
    rw [find?_cons] at h
    split at h
    · next same =>
      cases h
      have absent : k ∉ keys tail := same ▸ apart.1
      have head : modify (entry :: tail) k g = (entry.1, g entry.2) :: modify tail k g := by
        simp [modify, same]
      refine ⟨total f tail, rfl, ?_⟩
      rw [head, modify_of_not_mem g absent]
      rfl
    · next other =>
      obtain ⟨rest, before, after⟩ := ih apart.2 h
      have head : modify (entry :: tail) k g = entry :: modify tail k g := by
        simp [modify, other]
      refine ⟨f entry.2 + rest, ?_, ?_⟩
      · rw [total, before, add_left_comm]
      · rw [head, total, after, add_left_comm]

end Patchbay.Table
