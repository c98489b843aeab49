import Patchbay.Proofs.Packets
import Patchbay.Proofs.Machine.History

/-!
# Reply streams

Whatever a machine does and in whatever order, the replies to each execute that it handled are a
stream: outputs numbered from zero of which none is the last, and then at most one last reply, which
is either done or a failure. A call that is queued on a component or running, and a delete that
waits for a teardown, has no last reply yet; every other execute has exactly one.
-/

namespace Patchbay

variable {σ : Type}

/-- The replies that an execute may get. -/
structure ReplyStream (origin : ClientId) (tx : String) (target : Target) (rs : List Reply) :
    Prop where
  tagged : ∀ r ∈ rs, r.origin = origin ∧ r.target = some target ∧ r.packet.tx = tx ∧
    r.packet.type = .respondExecute
  numbered : ∀ (i : Nat) (r : Reply), rs[i]? = some r →
    r.packet.sequence.map UInt32.toNat = some i
  partials : ∀ (i : Nat) (r : Reply), rs[i]? = some r → i + 1 < rs.length →
    r.packet.isTerminal = false ∧ r.packet.status = true
  last : ∀ r ∈ rs, r.packet.isTerminal = true →
    (r.packet.done = true ∧ r.packet.status = true) ∨
    (r.packet.done = false ∧ r.packet.failure?.isSome)

/-- How many of the replies end their transaction. -/
def terminals (rs : List Reply) : Nat := rs.countP fun r => r.packet.isTerminal

/-! ## What a ticket pays is a stream -/

namespace Ticket

/-- A reply that carries the tags of a ticket. -/
def Tags (t : Ticket) (r : Reply) : Prop :=
  r.origin = t.origin ∧ r.target = some t.target ∧ r.packet.tx = t.tx ∧
    r.packet.type = .respondExecute

theorem outputs_spec {t : Ticket} {vs : List Value} {i : Nat} {r : Reply}
    (h : (t.outputs vs)[i]? = some r) :
    t.Tags r ∧ r.packet.sequence = some (t.sequence + UInt32.ofNat i) ∧
      r.packet.isTerminal = false ∧ r.packet.status = true := by
  rw [outputs_getElem?] at h
  obtain ⟨v, -, rfl⟩ := Option.map_eq_some_iff.1 h
  exact ⟨⟨rfl, rfl, rfl, rfl⟩, rfl, by simp [reply], by simp [reply]⟩

theorem Last.spec {t : Ticket} {r : Reply} (h : t.Last r) :
    t.Tags r ∧ r.packet.sequence = some t.sequence ∧ r.packet.isTerminal = true ∧
      ((r.packet.done = true ∧ r.packet.status = true) ∨
        (r.packet.done = false ∧ r.packet.failure?.isSome)) := by
  cases h with
  | done v =>
    exact ⟨⟨rfl, rfl, rfl, rfl⟩, rfl, by simp [Ticket.done, reply], by simp [Ticket.done, reply]⟩
  | fail f =>
    exact ⟨⟨rfl, rfl, rfl, rfl⟩, rfl, by simp [Ticket.fail, reply], by simp [Ticket.fail, reply]⟩

/-- The sequence number at a position, as long as it has not wrapped around. -/
theorem sequence_toNat {i : Nat} (small : i < 2 ^ 32) :
    (0 + UInt32.ofNat i : UInt32).toNat = i := by
  rw [UInt32.zero_add, UInt32.toNat_ofNat_of_lt' small]

theorem outputs_stream {t : Ticket} (fresh : t.sequence = 0) {vs : List Value}
    (few : vs.length ≤ 2 ^ 32) : ReplyStream t.origin t.tx t.target (t.outputs vs) where
  tagged r member := by
    obtain ⟨i, here⟩ := List.getElem?_of_mem member
    exact (outputs_spec here).1
  numbered i r here := by
    have inside := (List.getElem?_eq_some_iff.1 here).1
    rw [outputs_length] at inside
    rw [(outputs_spec here).2.1, fresh, Option.map_some, sequence_toNat (by omega)]
  partials i r here _ := (outputs_spec here).2.2
  last r member terminal := by
    obtain ⟨i, here⟩ := List.getElem?_of_mem member
    rw [(outputs_spec here).2.2.1] at terminal
    cases terminal

theorem outputs_last_stream {t : Ticket} (fresh : t.sequence = 0) {vs : List Value} {r : Reply}
    (ending : (t.after vs).Last r) (few : vs.length < 2 ^ 32) :
    ReplyStream t.origin t.tx t.target (t.outputs vs ++ [r]) := by
  have outputs := outputs_stream fresh (Nat.le_of_lt few)
  obtain ⟨tags, number, terminal, verdict⟩ := ending.spec
  rw [after_eq] at tags number
  -- A position is either one of an output or the one behind them all.
  have place {i : Nat} {s : Reply} (here : (t.outputs vs ++ [r])[i]? = some s) :
      (t.outputs vs)[i]? = some s ∨ i = vs.length ∧ s = r := by
    rcases Nat.lt_or_ge i (t.outputs vs).length with early | late
    · exact .inl ((List.getElem?_append_left early).symm.trans here)
    · rw [List.getElem?_append_right late] at here
      obtain ⟨inside, same⟩ := List.getElem?_eq_some_iff.1 here
      simp only [outputs_length, List.length_singleton] at inside late
      exact .inr ⟨by omega, by simpa using same.symm⟩
  refine ⟨fun s member => ?_, fun i s here => ?_, fun i s here before => ?_,
    fun s member ends => ?_⟩
  · rcases List.mem_append.1 member with output | final
    · exact outputs.tagged s output
    · rw [List.mem_singleton.1 final]
      exact tags
  · rcases place here with output | ⟨rfl, rfl⟩
    · exact outputs.numbered i s output
    · rw [number, fresh, Option.map_some, sequence_toNat few]
  · rcases place here with output | ⟨rfl, rfl⟩
    · exact (outputs_spec output).2.2
    · simp only [List.length_append, outputs_length, List.length_singleton] at before
      omega
  · rcases List.mem_append.1 member with output | final
    · exact outputs.last s output ends
    · rw [List.mem_singleton.1 final]
      exact verdict

theorem terminals_outputs (t : Ticket) (vs : List Value) : terminals (t.outputs vs) = 0 := by
  refine List.countP_eq_zero.2 fun r member => ?_
  obtain ⟨i, here⟩ := List.getElem?_of_mem member
  simp [(outputs_spec here).2.2.1]

/-- What is paid with a fresh ticket is a stream, which has ended when nothing is left of it. -/
theorem Spend.stream {t : Ticket} {rs : List Reply} {left : Multiset Ticket}
    (paid : t.Spend rs left) (fresh : t.sequence = 0) (few : rs.length < 2 ^ 32) :
    ReplyStream t.origin t.tx t.target rs ∧ terminals rs + left.card = 1 := by
  cases paid with
  | partials vs =>
    rw [outputs_length] at few
    refine ⟨outputs_stream fresh (Nat.le_of_lt few), ?_⟩
    rw [terminals_outputs, Multiset.card_singleton]
  | @ending vs r last =>
    rw [List.length_append, outputs_length, List.length_singleton] at few
    refine ⟨outputs_last_stream fresh last (by omega), ?_⟩
    have one : terminals [r] = 1 := by simp [terminals, last.spec.2.2.1]
    have sum : terminals (t.outputs vs ++ [r]) = terminals (t.outputs vs) + terminals [r] :=
      List.countP_append
    rw [sum, terminals_outputs, one, Multiset.card_zero]

end Ticket

/-! ## What an execute is waiting for -/

namespace Machine

/-- A call is queued on a component. -/
def Queued (m : Machine σ) (n : Nat) : Prop :=
  ∃ id i, Table.find? m.instances id = some i ∧ i.phase.hasEnded = false ∧
    ∃ call ∈ i.mailbox, call.ticket.serial = n

/-- A call is running, as a task or on a component. -/
def Running (m : Machine σ) (n : Nat) : Prop :=
  (∃ id task, Table.find? m.tasks id = some task ∧ task.work ≠ .answered ∧
    task.ticket.serial = n) ∨
  ∃ id i t, Table.find? m.instances id = some i ∧ i.phase.ticket? = some t ∧ t.serial = n

/-- A delete waits for the teardown of a deleted instance. -/
def AwaitsTeardown (m : Machine σ) (n : Nat) : Prop :=
  ∃ id w i, Table.find? m.waiters id = some w ∧ w.ticket.serial = n ∧
    Table.find? m.instances w.instanceId = some i ∧ i.deleted

def Pending (m : Machine σ) (n : Nat) : Prop :=
  m.Queued n ∨ m.Running n ∨ m.AwaitsTeardown n

theorem mem_heldTask {task : Task} {t : Ticket} :
    t ∈ task.held ↔ task.work ≠ .answered ∧ t = task.ticket := by
  obtain ⟨ticket, work⟩ := task
  cases work <;> simp [Task.held]

theorem mem_heldInstance {i : Instance σ} {t : Ticket} :
    t ∈ i.held ↔ i.phase.ticket? = some t ∨ ∃ call ∈ i.mailbox, call.ticket = t := by
  have phase : t ∈ i.phase.ticket?.elim 0 ({·} : Ticket → Multiset Ticket) ↔
      i.phase.ticket? = some t := by
    cases i.phase.ticket? <;> simp [eq_comm]
  rw [Instance.held, Multiset.mem_add, phase]
  simp [queuedTickets]

/-- An execute is pending as long as its ticket is held. -/
theorem pending_iff {bound : Nat} {m : Machine σ} (h : m.Tidy bound) (n : Nat) :
    m.Pending n ↔ ∃ t ∈ m.held, t.serial = n := by
  simp only [held, Multiset.mem_add, Table.mem_total]
  constructor
  · rintro (⟨id, i, found, -, call, member, serial⟩ | (⟨id, task, found, work, serial⟩ |
      ⟨id, i, t, found, phase, serial⟩) | ⟨id, w, i, found, serial, -⟩)
    · have held := mem_heldInstance.2 (.inr ⟨call, member, rfl⟩)
      exact ⟨call.ticket, .inl (.inr ⟨_, Table.mem_of_find? found, held⟩), serial⟩
    · have held := mem_heldTask.2 ⟨work, rfl⟩
      exact ⟨task.ticket, .inl (.inl ⟨_, Table.mem_of_find? found, held⟩), serial⟩
    · have held := mem_heldInstance.2 (.inl phase)
      exact ⟨t, .inl (.inr ⟨_, Table.mem_of_find? found, held⟩), serial⟩
    · have held : w.ticket ∈ w.held := Multiset.mem_singleton_self _
      exact ⟨w.ticket, .inr ⟨_, Table.mem_of_find? found, held⟩, serial⟩
  · rintro ⟨t, (⟨⟨id, task⟩, member, held⟩ | ⟨⟨id, i⟩, member, held⟩) |
      ⟨⟨id, w⟩, member, held⟩, serial⟩
    · obtain ⟨work, rfl⟩ := mem_heldTask.1 held
      exact .inr (.inl (.inl ⟨id, task, Table.find?_of_mem h.tasks.unique member, work, serial⟩))
    · have found := Table.find?_of_mem h.instances.unique member
      rcases mem_heldInstance.1 held with phase | ⟨call, queued, rfl⟩
      · exact .inr (.inl (.inr ⟨id, i, t, found, phase, serial⟩))
      · refine .inl ⟨id, i, found, ?_, call, queued, serial⟩
        -- the mailbox of an instance that has ended is empty
        cases ended : i.phase.hasEnded with
        | false => rfl
        | true => simp [h.drained id i found ended] at queued
    · obtain rfl := Multiset.mem_singleton.1 held
      obtain ⟨i, found, deleted⟩ := h.awaited _ member
      exact .inr (.inr ⟨id, w, i, Table.find?_of_mem h.waiters.unique member, serial, found,
        deleted⟩)

/-! ## Main result -/

/-- The replies to the request with a number. -/
def repliesTo (m : Machine σ) (n : Nat) : List Reply := Ledger.repliesTo m.replies n

/-- At every moment of every history, the replies to each handled execute are a stream, and it has
ended exactly when the execute is not pending. -/
theorem replies_of_execute {asked : List Request} {m : Machine σ} (history : History asked m)
    {n : Nat} {origin : ClientId} {target : Target} {packet : Packet}
    (handled : asked[n]? = some (.execute origin target packet))
    (few : (m.repliesTo n).length < 2 ^ 32) :
    ReplyStream origin packet.tx target (m.repliesTo n) ∧
      (m.Pending n → terminals (m.repliesTo n) = 0) ∧
      (¬ m.Pending n → terminals (m.repliesTo n) = 1) := by
  obtain ⟨-, tidy, sound⟩ := history.orderly
  have spent := sound.spent n origin target packet handled
  obtain ⟨stream, ends⟩ := spent.stream rfl few
  have left : 0 < (Ledger.heldFor m.held n).card ↔ m.Pending n := by
    rw [pending_iff tidy, Multiset.card_pos_iff_exists_mem]
    simp only [Ledger.heldFor, Multiset.mem_filter]
  refine ⟨stream, fun pending => ?_, fun settled => ?_⟩
  · have := left.2 pending
    change terminals (m.repliesTo n) + (Ledger.heldFor m.held n).card = 1 at ends
    omega
  · have := mt left.1 settled
    change terminals (m.repliesTo n) + (Ledger.heldFor m.held n).card = 1 at ends
    omega

/-- A registry with one function, whose stream has two outputs. -/
def pairRegistry : Registry Unit :=
  ⟨[("pair", ⟨"demo", .streaming fun _ => .ok (.ofList [.int 1, .int 2])⟩)], []⟩

/-- A call of that function and a cancel that comes too late to change its outputs. -/
def pairMoves : List Move :=
  [.request (.execute 3 (.function "pair") (.callFunction "t" "pair" .null)), .task 0 0, .task 0 0,
    .task 0 0, .task 0 0, .task 0 0, .task 0 0, .task 0 0, .request (.cancel 3 "t"), .task 0 0]

theorem replies_of_execute_pair :
    ∃ m : Machine Unit, (init pairRegistry).after? pairMoves = some m ∧
      (m.repliesTo 0).length = 2 ∧
      ReplyStream 3 "t" (.function "pair") (m.repliesTo 0) ∧ terminals (m.repliesTo 0) = 1 := by
  obtain ⟨m, run, two, idle⟩ : ∃ m : Machine Unit,
      (init pairRegistry).after? pairMoves = some m ∧ (m.repliesTo 0).length = 2 ∧ m.held = 0 :=
    ⟨_, rfl, rfl, rfl⟩
  have history := (History.start pairRegistry).after run
  obtain ⟨stream, -, ended⟩ := replies_of_execute history (n := 0) rfl (by omega)
  have settled : ¬ m.Pending 0 := by
    simp [pending_iff history.orderly.tidy, idle]
  exact ⟨m, run, two, stream, ended settled⟩

end Machine

end Patchbay
