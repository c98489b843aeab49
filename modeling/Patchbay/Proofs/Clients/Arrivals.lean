import Mathlib.Data.List.Nodup
import Patchbay.Packet

/-!
# Arrivals

The packets that arrive are numbered in the order in which they do. Some of them are consumed, in
whatever order; the others are left, in the order of arrival.
-/

namespace Patchbay

/-- All packets that arrived, and those that were consumed, with their numbers. -/
structure Arrivals where
  received : List Packet
  consumed : List (Packet × Nat)

namespace Arrivals

/-- What is left, with the numbers. -/
def left (a : Arrivals) : List (Packet × Nat) :=
  a.received.zipIdx.filter fun e => e.2 ∉ a.consumed.map Prod.snd

def arrive (a : Arrivals) (ps : List Packet) : Arrivals := { a with received := a.received ++ ps }

def consume (a : Arrivals) (e : Packet × Nat) : Arrivals := { a with consumed := a.consumed ++ [e] }

/-- The earliest packet that is left of those that are wanted. -/
structure Earliest (a : Arrivals) (wants : Packet → Bool) (e : Packet × Nat) : Prop where
  left : e ∈ a.left
  wanted : wants e.1 = true
  first : ∀ f ∈ a.left, wants f.1 = true → e.2 ≤ f.2

/-- Only what arrived is consumed, each packet once. -/
structure Sound (a : Arrivals) : Prop where
  unique : (a.consumed.map Prod.snd).Nodup
  arrived : a.consumed ⊆ a.received.zipIdx

variable {a : Arrivals} {e f : Packet × Nat} {wants : Packet → Bool}
  {before after : List (Packet × Nat)}

theorem mem_left : e ∈ a.left ↔ e ∈ a.received.zipIdx ∧ e.2 ∉ a.consumed.map Prod.snd := by
  rw [left, List.mem_filter, decide_eq_true_iff]

/-- A number stands for one packet. -/
theorem eq_of_number {ps : List Packet} (first : e ∈ ps.zipIdx) (second : f ∈ ps.zipIdx)
    (same : e.2 = f.2) : e = f := by
  rw [List.mem_zipIdx_iff_getElem?] at first second
  rw [same, second] at first
  exact Prod.ext (Option.some.inj first).symm same

theorem sorted_zipIdx (ps : List Packet) (n : Nat) : (ps.zipIdx n).Pairwise (·.2 < ·.2) := by
  apply List.pairwise_map.1
  rw [List.zipIdx_map_snd]
  exact List.pairwise_lt_range'

theorem left_sorted (a : Arrivals) : a.left.Pairwise (·.2 < ·.2) :=
  (sorted_zipIdx a.received 0).sublist List.filter_sublist

theorem nodup_of_sorted {es : List (Packet × Nat)} (sorted : es.Pairwise (·.2 < ·.2)) : es.Nodup := by
  refine sorted.imp fun {e f} less same => ?_
  rw [same] at less
  exact Nat.lt_irrefl _ less

/-- Each arrival is either consumed or left, once. -/
theorem Sound.partition (sound : a.Sound) : a.received.zipIdx.Perm (a.consumed ++ a.left) := by
  have apart : (a.consumed ++ a.left).Nodup := by
    refine List.nodup_append'.2 ⟨sound.unique.of_map Prod.snd, nodup_of_sorted a.left_sorted, ?_⟩
    intro e consumed left
    exact (mem_left.1 left).2 (List.mem_map_of_mem consumed)
  refine (List.perm_ext_iff_of_nodup (nodup_of_sorted (sorted_zipIdx a.received 0)) apart).2 ?_
  intro e
  rw [List.mem_append, mem_left]
  constructor
  · intro there
    by_cases consumed : e.2 ∈ a.consumed.map Prod.snd
    · obtain ⟨f, member, same⟩ := List.mem_map.1 consumed
      exact .inl (eq_of_number (sound.arrived member) there same ▸ member)
    · exact .inr ⟨there, consumed⟩
  · rintro (consumed | ⟨there, -⟩)
    · exact sound.arrived consumed
    · exact there

/-! ## Arriving -/

theorem Sound.arrive (sound : a.Sound) (ps : List Packet) : (a.arrive ps).Sound := by
  refine ⟨sound.unique, fun e consumed => ?_⟩
  rw [Arrivals.arrive, List.zipIdx_append]
  exact List.mem_append_left _ (sound.arrived consumed)

/-- What arrives is put behind what is left. -/
theorem Sound.left_arrive (sound : a.Sound) (ps : List Packet) :
    (a.arrive ps).left = a.left ++ ps.zipIdx a.received.length := by
  have fresh : ∀ e ∈ ps.zipIdx a.received.length, e.2 ∉ a.consumed.map Prod.snd := by
    intro e new consumed
    obtain ⟨f, member, same⟩ := List.mem_map.1 consumed
    have old := List.snd_lt_of_mem_zipIdx (sound.arrived member)
    have late := List.le_snd_of_mem_zipIdx new
    omega
  rw [left, Arrivals.arrive, List.zipIdx_append, List.filter_append, left, Nat.zero_add]
  congr 1
  exact List.filter_eq_self.2 fun e new => decide_eq_true (fresh e new)

/-! ## Consuming -/

theorem Sound.consume (sound : a.Sound) (left : e ∈ a.left) : (a.consume e).Sound := by
  obtain ⟨there, fresh⟩ := mem_left.1 left
  constructor
  · rw [Arrivals.consume, List.map_append]
    refine List.nodup_append'.2 ⟨sound.unique, List.nodup_singleton _, fun n consumed new => ?_⟩
    exact fresh (List.mem_singleton.1 new ▸ consumed)
  · intro f member
    rcases List.mem_append.1 member with old | new
    · exact sound.arrived old
    · exact List.mem_singleton.1 new ▸ there

/-- What is consumed is taken from among what is left. -/
theorem left_consume (split : a.left = before ++ e :: after) :
    (a.consume e).left = before ++ after := by
  have filtered : (a.consume e).left = a.left.filter fun f => f.2 ≠ e.2 := by
    rw [left, left, Arrivals.consume, List.filter_filter]
    congr 1
    funext f
    simp only [List.map_append, List.map_cons, List.map_nil, List.mem_append, List.mem_singleton,
      not_or, Bool.decide_and, Bool.and_comm]
  have sorted := a.left_sorted
  rw [split, List.pairwise_append, List.pairwise_cons] at sorted
  obtain ⟨-, ⟨behind, -⟩, front⟩ := sorted
  rw [filtered, split, List.filter_append, List.filter_cons_of_neg (by simp)]
  congr 1
  · refine List.filter_eq_self.2 fun f member => decide_eq_true ?_
    exact Nat.ne_of_lt (front f member e List.mem_cons_self)
  · exact List.filter_eq_self.2 fun f member => decide_eq_true (Nat.ne_of_gt (behind f member))

theorem earliest_of_split (split : a.left = before ++ e :: after)
    (unwanted : ∀ f ∈ before, wants f.1 = false) (wanted : wants e.1 = true) :
    a.Earliest wants e := by
  refine ⟨split ▸ List.mem_append_right _ List.mem_cons_self, wanted, fun f member also => ?_⟩
  have sorted := a.left_sorted
  rw [split, List.pairwise_append, List.pairwise_cons] at sorted
  obtain ⟨-, ⟨behind, -⟩, -⟩ := sorted
  rw [split] at member
  rcases List.mem_append.1 member with front | back
  · rw [unwanted f front] at also
    cases also
  · rcases List.mem_cons.1 back with rfl | later
    · exact Nat.le_refl _
    · exact Nat.le_of_lt (behind f later)

end Arrivals

end Patchbay
