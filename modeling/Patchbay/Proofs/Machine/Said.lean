import Patchbay.Proofs.Machine.Holders

/-!
# What a machine has said

A machine adds to its replies and to its log and reads neither. So it moves in the same way when
both are taken away from it between two moves, and whoever collects them puts together what one
machine would have said that kept them all.
-/

namespace Patchbay

variable {σ : Type}

namespace Machine

/-- A machine that has said something before. -/
def said (m : Machine σ) (rs : List Reply) (lines : List String) : Machine σ :=
  { m with replies := rs ++ m.replies, log := lines ++ m.log }

section

variable (m : Machine σ) (rs : List Reply) (lines : List String)

theorem answerAll_said (new : List Reply) :
    (m.said rs lines).answerAll new = (m.answerAll new).said rs lines := by
  simp [answerAll, said, List.append_assoc]

theorem answer_said (r : Reply) : (m.said rs lines).answer r = (m.answer r).said rs lines :=
  m.answerAll_said rs lines [r]

/-- A machine that was changed on the way answers no differently. -/
theorem answer_of_said {n k : Machine σ} (same : n = k.said rs lines) (r : Reply) :
    n.answer r = (k.answer r).said rs lines := by
  rw [same]
  exact k.answer_said rs lines r

/-! ## Requests -/

theorem callFunction_said (name : String) (args : Value) (t : Ticket) :
    (m.said rs lines).callFunction name args t = (m.callFunction name args t).said rs lines := by
  have same : (m.said rs lines).registry = m.registry := rfl
  unfold callFunction
  rw [same]
  split
  · exact m.answer_said rs lines _
  · rfl

theorem defineComponent_said (type : String) (body : Value) (t : Ticket) :
    (m.said rs lines).defineComponent type body t =
      (m.defineComponent type body t).said rs lines := by
  have same : (m.said rs lines).prepare type body = m.prepare type body := rfl
  unfold defineComponent
  rw [same]
  split
  · exact m.answer_said rs lines _
  · apply answer_of_said
    rfl

theorem deleteComponent_said (name : String) (t : Ticket) :
    (m.said rs lines).deleteComponent name t = (m.deleteComponent name t).said rs lines := by
  have same : (m.said rs lines).live = m.live := rfl
  unfold deleteComponent
  rw [same]
  split
  · exact m.answer_said rs lines _
  · rfl

theorem callMethod_said (name method : String) (args : Value) (t : Ticket) :
    (m.said rs lines).callMethod name method args t =
      (m.callMethod name method args t).said rs lines := by
  have live : (m.said rs lines).live = m.live := rfl
  have instances : (m.said rs lines).instances = m.instances := rfl
  unfold callMethod
  rw [live, instances]
  split
  · exact m.answer_said rs lines _
  · split
    · rfl
    · apply answer_of_said
      rfl

theorem handle_said (r : Request) : (m.said rs lines).handle r = (m.handle r).said rs lines := by
  cases r with
  | cancel origin tx =>
    have same : (m.said rs lines).inflight = m.inflight := rfl
    simp only [handle, cancel]
    rw [same]
    split
    · apply answer_of_said
      rfl
    · apply answer_of_said
      rfl
  | execute origin target packet =>
    let next := { m with serial := m.serial + 1 }
    cases target with
    | function name => exact next.callFunction_said rs lines name _ _
    | componentType type => exact next.defineComponent_said rs lines type _ _
    | component name => exact next.deleteComponent_said rs lines name _
    | method name method => exact next.callMethod_said rs lines name method _ _

/-! ## Work -/

theorem endTask_said (id : Nat) (t : Ticket) (new : List Reply) :
    (m.said rs lines).endTask id t new = (m.endTask id t new).said rs lines := by
  simp [endTask, setWork, answerAll, said, List.append_assoc]

theorem runTask_said (id : Nat) (t : Ticket) (op : Operator) (args : Value) (now : Nat) :
    (m.said rs lines).runTask id t op args now = (m.runTask id t op args now).said rs lines := by
  cases op with
  | instant run => exact m.endTask_said rs lines id t _
  | streaming run =>
    unfold runTask
    dsimp only
    split
    · rfl
    · exact m.endTask_said rs lines id t _

theorem stepTask_said (id now : Nat) :
    (m.said rs lines).stepTask? id now = (m.stepTask? id now).map (·.said rs lines) := by
  have same : (m.said rs lines).tasks = m.tasks := rfl
  have cancelled (t : Ticket) : (m.said rs lines).isCancelled t = m.isCancelled t := rfl
  unfold stepTask?
  rw [same]
  cases Table.find? m.tasks id with
  | none => rfl
  | some task =>
    obtain ⟨t, work⟩ := task
    simp only [Option.bind_eq_bind, Option.bind_some]
    cases work with
    | start op args =>
      simp only [startTask, cancelled, Option.map_some]
      split
      · exact congrArg some (m.endTask_said rs lines id t _)
      · rfl
    | begun op args => exact congrArg some (m.runTask_said rs lines id t op args now)
    | drive d =>
      dsimp only
      rw [cancelled]
      split
      · rfl
      · rw [answerAll_said]
        rfl
      · exact congrArg some (m.endTask_said rs lines id t _)
    | answered => rfl

theorem endCall_said (id : Nat) (i : Instance σ) (t : Ticket) (new : List Reply) :
    (m.said rs lines).endCall id i t new = (m.endCall id i t new).said rs lines := by
  simp [endCall, setInstance, answerAll, said, List.append_assoc]

theorem invoke_said (id : Nat) (i : Instance σ) (call : MethodCall) :
    (m.said rs lines).invoke id i call = (m.invoke id i call).said rs lines := by
  have isOpen : ((m.said rs lines).isClosed i || (m.said rs lines).isCancelled call.ticket) =
      (m.isClosed i || m.isCancelled call.ticket) := rfl
  unfold invoke
  dsimp only
  rw [isOpen]
  split
  · exact m.endCall_said rs lines id i _ _
  · split
    · exact m.endCall_said rs lines id i _ _
    · rfl

theorem perform_said (id : Nat) (i : Instance σ) (call : MethodCall) (method : Method σ)
    (now : Nat) :
    (m.said rs lines).perform id i call method now =
      (m.perform id i call method now).said rs lines := by
  cases method with
  | instant run => exact m.endCall_said rs lines id _ _ _
  | streaming run =>
    unfold perform
    dsimp only
    split
    · rfl
    · exact m.endCall_said rs lines id _ _ _

theorem drain_said (id : Nat) (i : Instance σ) :
    (m.said rs lines).drain id i = (m.drain id i).said rs lines := by
  unfold drain
  split
  · rw [answer_said]
    rfl
  · simp [setInstance, said, List.append_assoc]

theorem stepInstance_said (id now : Nat) :
    (m.said rs lines).stepInstance? id now = (m.stepInstance? id now).map (·.said rs lines) := by
  have same : (m.said rs lines).instances = m.instances := rfl
  have closed (i : Instance σ) : (m.said rs lines).isClosed i = m.isClosed i := rfl
  have cancelled (t : Ticket) : (m.said rs lines).isCancelled t = m.isCancelled t := rfl
  unfold stepInstance?
  rw [same]
  cases Table.find? m.instances id with
  | none => rfl
  | some i =>
    simp only [Option.bind_eq_bind, Option.bind_some]
    cases phase : i.phase with
    | idle =>
      dsimp only
      rw [closed]
      split
      · rfl
      · split <;> rfl
    | taken call => exact congrArg some (m.invoke_said rs lines id i call)
    | begun call method => exact congrArg some (m.perform_said rs lines id i call method now)
    | driving t d =>
      dsimp only
      rw [closed, cancelled]
      split
      · rfl
      · rw [answerAll_said]
        rfl
      · exact congrArg some (m.endCall_said rs lines id i t _)
    | answered key => rfl
    | closing => exact congrArg some (m.drain_said rs lines id i)
    | drained key => rfl
    | ended => rfl

theorem stepWaiter_said (id : Nat) :
    (m.said rs lines).stepWaiter? id = (m.stepWaiter? id).map (·.said rs lines) := by
  have waiters : (m.said rs lines).waiters = m.waiters := rfl
  have instances : (m.said rs lines).instances = m.instances := rfl
  unfold stepWaiter?
  rw [waiters, instances]
  cases Table.find? m.waiters id with
  | none => rfl
  | some w =>
    simp only [Option.bind_eq_bind, Option.bind_some]
    cases Table.find? m.instances w.instanceId with
    | none => rfl
    | some i =>
      simp only [Option.bind_some]
      split
      · let next := { m with waiters := Table.erase m.waiters id }
        exact congrArg some (next.answer_said rs lines _)
      · rfl

/-- What was said before makes no difference to a move. -/
theorem move_said (l : Move) :
    (m.said rs lines).move? l = (m.move? l).map (·.said rs lines) := by
  have busy : (m.said rs lines).isBusy = m.isBusy := rfl
  cases l with
  | trip key =>
    simp only [move?]
    rw [busy]
    split <;> rfl
  | request r =>
    have same : (m.said rs lines).defers r = m.defers r := rfl
    simp only [move?]
    rw [same]
    split
    · rfl
    · exact congrArg some (m.handle_said rs lines r)
  | stop => rfl
  | halt =>
    have same : ((m.said rs lines).stopping && !(m.said rs lines).halted) =
        (m.stopping && !m.halted) := rfl
    simp only [move?, halt?]
    rw [busy, same]
    split
    · rfl
    · split <;> rfl
  | notice =>
    have notices : (m.said rs lines).notices = m.notices := rfl
    simp only [move?, notice?]
    rw [busy, notices]
    split
    · rfl
    · split <;> rfl
  | task id now => exact m.stepTask_said rs lines id now
  | «instance» id now => exact m.stepInstance_said rs lines id now
  | waiter id => exact m.stepWaiter_said rs lines id

end

/-! ## Who is answered how -/

variable {m k : Machine σ} {asked : List Request} {r : Reply}

/-- A machine that was not asked to stop goes on. -/
theorem running_of_move {l : Move} (goes : l ≠ .stop) (stopping : m.stopping = false)
    (halted : m.halted = false) (step : m.move? l = some k) :
    k.stopping = false ∧ k.halted = false := by
  cases l with
  | trip key =>
    obtain ⟨-, rfl⟩ := trip_of_move step
    exact ⟨stopping, halted⟩
  | request r =>
    obtain rfl := handle_of_request step
    have moved := m.handle_moved r
    generalize m.handle r = k at moved ⊢
    generalize taken : [r] = requests at moved
    cases moved with
    | execute move => cases move <;> exact ⟨stopping, halted⟩
    | cancel tripped serial => exact ⟨stopping, halted⟩
    | _ => cases taken
  | stop => exact absurd rfl goes
  | halt => cases stopping.symm.trans (halt_of_move step).1
  | notice =>
    obtain ⟨_, _, -, rfl⟩ := notice_of_move step
    exact ⟨stopping, halted⟩
  | task id now =>
    cases stepTask_move step <;> exact ⟨stopping, halted⟩
  | «instance» id now =>
    cases stepInstance_move step
    exact ⟨stopping, halted⟩
  | waiter id =>
    cases stepWaiter_move step
    exact ⟨stopping, halted⟩

theorem cancel_replies (m : Machine σ) (origin : ClientId) (tx : String) :
    ∃ r, (m.handle (.cancel origin tx)).replies = m.replies ++ [r] ∧ r.packet.type = .respond := by
  simp only [handle, cancel]
  split
  · exact ⟨_, rfl, rfl⟩
  · exact ⟨_, rfl, rfl⟩

/-- A reply to a cancel is an answer. -/
theorem History.type_of_cancel (history : History asked m) (sent : r ∈ m.replies)
    {origin : ClientId} {tx : String} (cancels : asked[r.serial]? = some (.cancel origin tx)) :
    r.packet.type = .respond := by
  induction history with
  | start registry => cases sent
  | @move asked m k l before step ih =>
    have orderly := before.orderly
    obtain ⟨rs, replies, senders⟩ := replies_of_move step
    rw [replies] at sent
    rcases List.mem_append.1 sent with old | new
    · have known : r.serial < asked.length := orderly.sound.replied r old
      rw [List.getElem?_append_left known] at cancels
      exact ih old cancels
    · rcases senders r new with ⟨takes, serial⟩ | ⟨mover, moves, t, owned, serial⟩
      · cases l with
        | request q =>
          have last : asked ++ Move.asked (.request q) = asked ++ [q] := rfl
          rw [last, serial, ← orderly.number, List.getElem?_concat_length] at cancels
          cases cancels
          obtain ⟨s, answer, type⟩ := m.cancel_replies origin tx
          rw [handle_of_request step, replies] at answer
          obtain rfl : rs = [s] := List.append_cancel_left answer
          rw [List.mem_singleton.1 new]
          exact type
        | _ => exact absurd rfl takes
      · have held := Multiset.mem_of_le (m.heldAt_le mover) owned
        obtain ⟨o, g, p, execute⟩ := orderly.sound.owed t held
        have inside : t.serial < asked.length := (List.getElem?_eq_some_iff.1 execute).1
        rw [serial, List.getElem?_append_left inside] at cancels
        cases execute.symm.trans cancels
  | exchange registry before ih => exact ih sent cancels

end Machine

/-- What is paid with a ticket carries its tags and its numbers, and only the last reply can end it.
-/
theorem Ticket.Spend.spec {t : Ticket} {rs : List Reply} {left : Multiset Ticket}
    (paid : t.Spend rs left) {i : Nat} {r : Reply} (here : rs[i]? = some r) :
    t.Tags r ∧ r.packet.sequence = some (t.sequence + UInt32.ofNat i) ∧
      (i + 1 < rs.length → r.packet.isTerminal = false) := by
  cases paid with
  | partials vs =>
    obtain ⟨tags, number, goes, -⟩ := outputs_spec here
    exact ⟨tags, number, fun _ => goes⟩
  | @ending vs s last =>
    rcases Nat.lt_or_ge i (t.outputs vs).length with early | late
    · rw [List.getElem?_append_left early] at here
      obtain ⟨tags, number, goes, -⟩ := outputs_spec here
      exact ⟨tags, number, fun _ => goes⟩
    · have inside := (List.getElem?_eq_some_iff.1 here).1
      rw [List.getElem?_append_right late] at here
      simp only [List.length_append, outputs_length, List.length_singleton] at inside late here
      obtain rfl : i = vs.length := by omega
      rw [Nat.sub_self] at here
      cases here
      obtain ⟨tags, number, -, -⟩ := last.spec
      rw [after_eq] at tags number
      refine ⟨tags, number, fun more => ?_⟩
      simp only [List.length_append, outputs_length, List.length_singleton] at more
      omega

namespace Machine

variable {m : Machine σ} {asked : List Request} {r : Reply}

/-- An output answers an execute, and carries its tags. -/
theorem History.execute_of_output (history : History asked m) (sent : r ∈ m.replies)
    (type : r.packet.type = .respondExecute) :
    ∃ t p, asked[r.serial]? = some (.execute r.origin t p) ∧ r.target = some t ∧
      r.packet.tx = p.tx := by
  have sound := history.orderly.sound
  have number : r.serial < asked.length := sound.replied r sent
  have found := List.getElem?_eq_getElem number
  cases request : asked[r.serial] with
  | cancel origin tx =>
    rw [request] at found
    have answer := history.type_of_cancel sent found
    rw [type] at answer
    cases answer
  | execute origin t p =>
    rw [request] at found
    have mine : r ∈ Ledger.repliesTo m.replies r.serial := by simp [Ledger.repliesTo, sent]
    obtain ⟨i, here⟩ := List.getElem?_of_mem mine
    obtain ⟨⟨from_, target, tx, -⟩, -⟩ := (sound.spent _ origin t p found).spec here
    have same : r.origin = origin := from_
    exact ⟨t, p, same ▸ found, target, tx⟩

end Machine

end Patchbay
