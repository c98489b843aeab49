import Patchbay.Subscriptions
import Patchbay.Proofs.Tables

/-!
# Who is subscribed

A client gets into the table by subscribing and by nothing else, and it stands at a target once.
-/

namespace Patchbay.Subscriptions

/-- A client stands at some target. -/
def Holds (s : Subscriptions) (c : ClientId) : Prop := ∃ entry ∈ s.table, c ∈ entry.2

variable {s : Subscriptions} {t : Target} {c d : ClientId}

theorem holds_of_mem_subscribers (member : c ∈ s.subscribers t) : s.Holds c := by
  cases found : Table.find? s.table t with
  | none => simp [subscribers, found] at member
  | some clients =>
    rw [subscribers, found] at member
    exact ⟨_, Table.mem_of_find? found, member⟩

/-- A client that stands in the table once a target was written stood there before or comes in now.
-/
theorem holds_of_put {clients : List ClientId} (h : Holds ⟨Table.put s.table t clients⟩ c) :
    s.Holds c ∨ c ∈ clients := by
  obtain ⟨entry, member, here⟩ := h
  rcases Table.mem_put member with rfl | before
  · exact .inr here
  · exact .inl ⟨entry, before, here⟩

theorem holds_of_subscribe (h : (s.subscribe t d).1.Holds c) : s.Holds c ∨ c = d := by
  unfold subscribe at h
  split at h
  · exact .inl h
  · rcases holds_of_put h with before | here
    · exact .inl before
    · rcases List.mem_append.1 here with before | new
      · exact .inl (holds_of_mem_subscribers before)
      · exact .inr (List.mem_singleton.1 new)

theorem holds_of_unsubscribe (h : (s.unsubscribe t d).1.Holds c) : s.Holds c := by
  unfold unsubscribe set at h
  split at h
  · dsimp only at h
    split at h
    · obtain ⟨entry, member, here⟩ := h
      exact ⟨entry, List.mem_of_mem_filter member, here⟩
    · rcases holds_of_put h with before | here
      · exact before
      · exact holds_of_mem_subscribers (List.mem_of_mem_filter here)
  · exact h

theorem holds_of_removeClient (h : (s.removeClient d).1.Holds c) : s.Holds c := by
  obtain ⟨entry, member, here⟩ := h
  obtain ⟨before, stood, rfl⟩ := List.mem_map.1 (List.mem_of_mem_filter member)
  exact ⟨before, stood, List.mem_of_mem_filter here⟩

theorem not_holds_removeClient (s : Subscriptions) (c : ClientId) : ¬ (s.removeClient c).1.Holds c := by
  rintro ⟨entry, member, here⟩
  obtain ⟨before, stood, rfl⟩ := List.mem_map.1 (List.mem_of_mem_filter member)
  simp at here

/-- Whoever gets a reply asked for it or is subscribed. -/
theorem holds_of_mem_recipients {target : Option Target} (member : c ∈ s.recipients d target) :
    c = d ∨ s.Holds c := by
  cases target with
  | none => exact .inl (List.mem_singleton.1 member)
  | some t =>
    rcases List.mem_cons.1 member with origin | other
    · exact .inl origin
    · exact .inr (holds_of_mem_subscribers (List.mem_of_mem_filter other))

/-! ## Once -/

/-- No client stands twice at a target. -/
def Distinct (s : Subscriptions) : Prop := ∀ entry ∈ s.table, entry.2.Nodup

theorem distinct_empty : Distinct .empty := by simp [Distinct, empty]

theorem Distinct.subscribers (h : s.Distinct) (t : Target) : (s.subscribers t).Nodup := by
  unfold Subscriptions.subscribers
  cases found : Table.find? s.table t with
  | none => exact List.nodup_nil
  | some clients => exact h _ (Table.mem_of_find? found)

theorem Distinct.put (h : s.Distinct) {clients : List ClientId} (once : clients.Nodup) :
    Distinct ⟨Table.put s.table t clients⟩ := by
  intro entry member
  rcases Table.mem_put member with rfl | before
  · exact once
  · exact h entry before

theorem Distinct.subscribe (h : s.Distinct) (t : Target) (c : ClientId) :
    Distinct (s.subscribe t c).1 := by
  unfold Subscriptions.subscribe
  split
  · exact h
  · next absent =>
    apply h.put
    rw [List.nodup_append]
    refine ⟨h.subscribers t, List.nodup_singleton c, fun d before e last => ?_⟩
    rw [List.mem_singleton.1 last]
    rintro rfl
    exact absent before

theorem Distinct.unsubscribe (h : s.Distinct) (t : Target) (c : ClientId) :
    Distinct (s.unsubscribe t c).1 := by
  unfold Subscriptions.unsubscribe set
  split
  · dsimp only
    split
    · exact fun entry member => h entry (List.mem_of_mem_filter member)
    · exact h.put ((h.subscribers t).filter _)
  · exact h

theorem Distinct.removeClient (h : s.Distinct) (c : ClientId) :
    Distinct (s.removeClient c).1 := by
  intro entry member
  obtain ⟨before, stood, rfl⟩ := List.mem_map.1 (List.mem_of_mem_filter member)
  exact (h before stood).filter _

/-- Nobody gets a reply twice. -/
theorem Distinct.recipients (h : s.Distinct) (c : ClientId) (target : Option Target) :
    (s.recipients c target).Nodup := by
  cases target with
  | none => exact List.nodup_singleton c
  | some t =>
    apply List.nodup_cons.2
    exact ⟨by simp, (h.subscribers t).filter _⟩

/-! ## None without a client -/

/-- No target stands in the table without a client. -/
def Populated (s : Subscriptions) : Prop := ∀ entry ∈ s.table, entry.2 ≠ []

theorem populated_empty : Populated .empty := by simp [Populated, empty]

theorem Populated.put (h : s.Populated) {clients : List ClientId} (some : clients ≠ []) :
    Populated ⟨Table.put s.table t clients⟩ := by
  intro entry member
  rcases Table.mem_put member with rfl | before
  · exact some
  · exact h entry before

theorem Populated.subscribe (h : s.Populated) (t : Target) (c : ClientId) :
    Populated (s.subscribe t c).1 := by
  unfold Subscriptions.subscribe
  split
  · exact h
  · exact h.put (by simp)

theorem Populated.unsubscribe (h : s.Populated) (t : Target) (c : ClientId) :
    Populated (s.unsubscribe t c).1 := by
  unfold Subscriptions.unsubscribe set
  split
  · dsimp only
    split
    · exact fun entry member => h entry (List.mem_of_mem_filter member)
    · next some => exact h.put fun none => some (List.isEmpty_iff.2 none)
  · exact h

theorem Populated.removeClient (s : Subscriptions) (c : ClientId) :
    Populated (s.removeClient c).1 := by
  intro entry member empty
  have some := (List.mem_filter.1 member).2
  simp [empty] at some

end Patchbay.Subscriptions
