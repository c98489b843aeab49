import Patchbay.Proofs.Machine.ReplyStreams

/-!
# Holders

A ticket is held by one task, one instance or one waiter, and two that are held at once have
different numbers. So the replies to an execute come from whoever holds its ticket, and there are no
more of them once nobody does.
-/

namespace Patchbay

variable {σ : Type}

/-! ## One ticket a number -/

namespace Ledger

theorem Sound.card_le_one {l : Ledger} (h : l.Sound) (n : Nat) : (heldFor l.held n).card ≤ 1 := by
  by_cases none : ∀ t ∈ l.held, t.serial ≠ n
  · simp [heldFor_eq_zero none]
  · simp only [not_forall, not_not] at none
    obtain ⟨t, held, rfl⟩ := none
    obtain ⟨origin, target, packet, asked⟩ := h.owed t held
    exact (h.spent _ origin target packet asked).card_le_one

/-- Two tickets that are held side by side have different numbers. -/
theorem Sound.apart {l : Ledger} (h : l.Sound) {t u : Ticket} (held : {t} + {u} ≤ l.held) :
    t.serial ≠ u.serial := by
  intro same
  have one := h.card_le_one u.serial
  have both : heldFor ({t} + {u}) u.serial = {t} + {u} := by
    apply heldFor_eq_self
    intro v member
    rcases Multiset.mem_add.1 member with first | second
    · rw [Multiset.mem_singleton.1 first, same]
    · rw [Multiset.mem_singleton.1 second]
  have two : (heldFor ({t} + {u}) u.serial).card ≤ (heldFor l.held u.serial).card :=
    Multiset.card_le_card (Multiset.filter_le_filter _ held)
  rw [both] at two
  simp only [Multiset.card_add, Multiset.card_singleton] at two
  omega

end Ledger

/-- A ticket of which a last reply was paid is used up. -/
theorem Ticket.Spend.used_up {t : Ticket} {rs : List Reply} {left : Multiset Ticket}
    (paid : t.Spend rs left) {r : Reply} (sent : r ∈ rs) (terminal : r.packet.isTerminal = true) :
    left = 0 := by
  cases paid with
  | partials vs =>
    obtain ⟨i, here⟩ := List.getElem?_of_mem sent
    rw [(outputs_spec here).2.2.1] at terminal
    cases terminal
  | ending vs last => rfl

/-- A ticket that is used up was paid with a last reply. -/
theorem Ticket.Spend.terminal {t : Ticket} {rs : List Reply} (paid : t.Spend rs 0) :
    ∃ r ∈ rs, r.serial = t.serial ∧ r.packet.isTerminal = true := by
  generalize rest : (0 : Multiset Ticket) = left at paid
  cases paid with
  | partials vs => exact absurd rest.symm (Multiset.singleton_ne_zero _)
  | @ending vs r last =>
    refine ⟨r, by simp, ?_, last.spec.2.2.1⟩
    rw [last.serial, after_serial]

namespace Pays

variable {held left : Multiset Ticket} {rs : List Reply}

theorem serial (h : Pays held rs left) : ∀ r ∈ rs, ∃ t ∈ held, r.serial = t.serial := by
  cases h with
  | nothing => simp
  | @spend t _ rest paid others =>
    intro r member
    exact ⟨t, by simp, paid.serial.1 r member⟩

/-- A held ticket is held on under its number, or its last reply is sent. -/
theorem kept_or_settled (h : Pays held rs left) {t : Ticket} (member : t ∈ held) :
    (∃ u ∈ left, u.serial = t.serial) ∨
      ∃ r ∈ rs, r.serial = t.serial ∧ r.packet.isTerminal = true := by
  cases h with
  | nothing => exact .inl ⟨t, member, rfl⟩
  | @spend s _ rest paid others =>
    rcases Multiset.mem_add.1 member with here | other
    · obtain rfl := Multiset.mem_singleton.1 here
      cases paid with
      | partials vs => exact .inl ⟨t.after vs, by simp, Ticket.after_serial t vs⟩
      | ending vs last => exact .inr (Ticket.Spend.ending vs last).terminal
    · exact .inl ⟨t, Multiset.mem_add.2 (.inr other), rfl⟩

end Pays

/-! ## Holders -/

/-- Who can hold tickets. -/
inductive Holder where
  | task (id : Nat)
  | «instance» (id : Nat)
  | waiter (id : Nat)

namespace Machine

variable {m k : Machine σ} {asked : List Request} {l : Move}

def heldAt (m : Machine σ) : Holder → Multiset Ticket
  | .task id => Table.part Task.held m.tasks id
  | .instance id => Table.part Instance.held m.instances id
  | .waiter id => Table.part Waiter.held m.waiters id

/-- Who moves. -/
def Move.holder? : Move → Option Holder
  | .task id _ => some (.task id)
  | .instance id _ => some (.instance id)
  | .waiter id => some (.waiter id)
  | _ => none

theorem heldAt_task {id : Nat} {task : Task} (found : Table.find? m.tasks id = some task) :
    m.heldAt (.task id) = task.held := by
  simp [heldAt, Table.part, found]

theorem heldAt_instance {id : Nat} {i : Instance σ}
    (found : Table.find? m.instances id = some i) : m.heldAt (.instance id) = i.held := by
  simp [heldAt, Table.part, found]

theorem heldAt_waiter {id : Nat} {w : Waiter} (found : Table.find? m.waiters id = some w) :
    m.heldAt (.waiter id) = {w.ticket} := by
  simp [heldAt, Table.part, found, Waiter.held]

theorem heldAt_le (m : Machine σ) (h : Holder) : m.heldAt h ≤ m.held := by
  have tasks := Table.part_le_total Task.held m.tasks
  have instances := Table.part_le_total Instance.held m.instances
  have waiters := Table.part_le_total Waiter.held m.waiters
  cases h with
  | task id => exact (tasks id).trans ((Multiset.le_add_right _ _).trans (Multiset.le_add_right _ _))
  | «instance» id =>
    exact (instances id).trans ((Multiset.le_add_left _ _).trans (Multiset.le_add_right _ _))
  | waiter id => exact (waiters id).trans (Multiset.le_add_left _ _)

/-- What two holders hold is held side by side. -/
theorem heldAt_add_le (m : Machine σ) {h g : Holder} (apart : h ≠ g) :
    m.heldAt h + m.heldAt g ≤ m.held := by
  have tasks := Table.part_le_total Task.held m.tasks
  have instances := Table.part_le_total Instance.held m.instances
  have waiters := Table.part_le_total Waiter.held m.waiters
  have rotate : ∀ a b c : Multiset Ticket, a + b + c = a + c + b := fun a b c =>
    add_right_comm a b c
  unfold held
  cases h with
  | task id =>
    cases g with
    | task other =>
      have different : id ≠ other := fun same => apart (same ▸ rfl)
      have both := Table.part_add_part_le Task.held m.tasks different
      exact both.trans ((Multiset.le_add_right _ _).trans (Multiset.le_add_right _ _))
    | «instance» other =>
      exact (add_le_add (tasks id) (instances other)).trans (Multiset.le_add_right _ _)
    | waiter other =>
      rw [rotate]
      exact (add_le_add (tasks id) (waiters other)).trans (Multiset.le_add_right _ _)
  | «instance» id =>
    cases g with
    | task other =>
      rw [add_comm (m.heldAt _)]
      exact (add_le_add (tasks other) (instances id)).trans (Multiset.le_add_right _ _)
    | «instance» other =>
      have different : id ≠ other := fun same => apart (same ▸ rfl)
      have both := Table.part_add_part_le Instance.held m.instances different
      exact both.trans ((Multiset.le_add_left _ _).trans (Multiset.le_add_right _ _))
    | waiter other =>
      rw [add_assoc]
      exact (add_le_add (instances id) (waiters other)).trans (Multiset.le_add_left _ _)
  | waiter id =>
    cases g with
    | task other =>
      rw [add_comm (m.heldAt _), rotate]
      exact (add_le_add (tasks other) (waiters id)).trans (Multiset.le_add_right _ _)
    | «instance» other =>
      rw [add_comm (m.heldAt _), add_assoc]
      exact (add_le_add (instances other) (waiters id)).trans (Multiset.le_add_left _ _)
    | waiter other =>
      have different : id ≠ other := fun same => apart (same ▸ rfl)
      have both := Table.part_add_part_le Waiter.held m.waiters different
      exact both.trans (Multiset.le_add_left _ _)

/-- Tickets of two holders have different numbers. -/
theorem Orderly.apart (h : m.Orderly asked) {a b : Holder} (apart : a ≠ b) {t u : Ticket}
    (first : t ∈ m.heldAt a) (second : u ∈ m.heldAt b) : t.serial ≠ u.serial := by
  apply h.sound.apart
  have parts := add_le_add (Multiset.singleton_le.2 first) (Multiset.singleton_le.2 second)
  exact parts.trans (m.heldAt_add_le apart)

/-! ## Who replies -/

theorem ExecuteMove.replies {t : Ticket} (move : ExecuteMove m t k) :
    ∃ rs, k.replies = m.replies ++ rs ∧ ∀ r ∈ rs, r.serial = t.serial := by
  cases move with
  | refused inflight f => exact ⟨[t.fail f], rfl, by simp [Ticket.fail, Ticket.reply]⟩
  | started op args => exact ⟨[], by simp, by simp⟩
  | defined name component v => exact ⟨[t.done v], rfl, by simp [Ticket.done, Ticket.reply]⟩
  | deleting found => exact ⟨[], by simp, by simp⟩
  | queued found accepts ticket => exact ⟨[], by simp, by simp⟩

theorem handle_replies (m : Machine σ) (r : Request) :
    ∃ rs, (m.handle r).replies = m.replies ++ rs ∧ ∀ s ∈ rs, s.serial = m.serial := by
  have moved := m.handle_moved r
  generalize m.handle r = k at moved ⊢
  generalize asked : [r] = requests at moved
  cases moved with
  | execute move => exact move.replies
  | @cancel _ _ _ r serial => exact ⟨[r], rfl, by simpa using serial⟩
  | _ => cases asked

/-- A move replies to the request that it takes, or to a ticket of who moves. -/
theorem replies_of_move (step : m.move? l = some k) :
    ∃ rs, k.replies = m.replies ++ rs ∧ ∀ r ∈ rs, (l.asked ≠ [] ∧ r.serial = m.serial) ∨
      ∃ h, l.holder? = some h ∧ ∃ t ∈ m.heldAt h, r.serial = t.serial := by
  cases l with
  | request q =>
    obtain ⟨rs, replies, serial⟩ := m.handle_replies q
    rw [handle_of_request step] at replies
    exact ⟨rs, replies, fun r member => .inl ⟨by simp [Move.asked], serial r member⟩⟩
  | trip | stop | halt | notice =>
    obtain ⟨n, -, rfl⟩ := upkeep_of_move rfl step
    exact ⟨[], (List.append_nil _).symm, by simp⟩
  | task id now =>
    cases stepTask_move step with
    | @work task next rs found paid =>
      refine ⟨rs, rfl, fun r member => .inr ⟨_, rfl, ?_⟩⟩
      rw [heldAt_task found]
      exact paid.serial r member
    | drop found answered => exact ⟨[], (List.append_nil _).symm, by simp⟩
  | «instance» id now =>
    cases stepInstance_move step with
    | @work i next rs notices found worked =>
      refine ⟨rs, rfl, fun r member => .inr ⟨_, rfl, ?_⟩⟩
      rw [heldAt_instance found]
      exact worked.paid.serial r member
  | waiter id =>
    cases stepWaiter_move step with
    | @settle w i found awaited ended =>
      refine ⟨[w.ticket.done .null], rfl, fun r member => .inr ⟨_, rfl, w.ticket, ?_, ?_⟩⟩
      · simp [heldAt_waiter found]
      · rw [List.mem_singleton.1 member]
        rfl

private theorem repliesTo_of_append {rs : List Reply} {n : Nat}
    (replies : k.replies = m.replies ++ rs) (others : ∀ r ∈ rs, r.serial ≠ n) :
    k.repliesTo n = m.repliesTo n := by
  rw [repliesTo, replies, Ledger.repliesTo_append, Ledger.repliesTo_eq_nil others, List.append_nil]
  rfl

/-- Nobody but its holder replies to a ticket. -/
theorem repliesTo_of_other (h : m.Orderly asked) {holder : Holder} {t : Ticket}
    (held : t ∈ m.heldAt holder) (other : l.holder? ≠ some holder) (step : m.move? l = some k) :
    k.repliesTo t.serial = m.repliesTo t.serial := by
  obtain ⟨rs, replies, senders⟩ := replies_of_move step
  apply repliesTo_of_append replies
  intro r member same
  rcases senders r member with ⟨-, number⟩ | ⟨mover, moves, u, owned, number⟩
  · have old := h.sound.serial_lt (l := m.ledger asked)
      (Multiset.mem_of_le (m.heldAt_le holder) held)
    have := h.number
    simp only [ledger] at old
    omega
  · have different : mover ≠ holder := fun equal => other (equal ▸ moves)
    exact h.apart different owned held (number.symm.trans same)

/-- Once an execute has its last reply, nobody holds its ticket. -/
theorem Orderly.released (h : m.Orderly asked) {n : Nat} {origin : ClientId} {target : Target}
    {packet : Packet} (handled : asked[n]? = some (.execute origin target packet)) {r : Reply}
    (sent : r ∈ m.repliesTo n) (terminal : r.packet.isTerminal = true) :
    ∀ t ∈ m.held, t.serial ≠ n := by
  have none := (h.sound.spent n origin target packet handled).used_up sent terminal
  exact Multiset.filter_eq_nil.1 none

/-- There is no reply behind the last one. -/
theorem repliesTo_of_terminal (h : m.Orderly asked) {n : Nat} {origin : ClientId} {target : Target}
    {packet : Packet} (handled : asked[n]? = some (.execute origin target packet)) {r : Reply}
    (sent : r ∈ m.repliesTo n) (terminal : r.packet.isTerminal = true)
    (step : m.move? l = some k) : k.repliesTo n = m.repliesTo n := by
  obtain ⟨rs, replies, senders⟩ := replies_of_move step
  apply repliesTo_of_append replies
  intro s member same
  rcases senders s member with ⟨-, number⟩ | ⟨mover, moves, u, owned, number⟩
  · have old := (List.getElem?_eq_some_iff.1 handled).1
    have := h.number
    omega
  · have held := Multiset.mem_of_le (m.heldAt_le mover) owned
    exact h.released handled sent terminal u held (number.symm.trans same)

end Machine

end Patchbay
