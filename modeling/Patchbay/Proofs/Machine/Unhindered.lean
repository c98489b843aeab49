import Patchbay.Proofs.Machine.ComponentNames
import Patchbay.Proofs.Machine.Driving

/-!
# Unhindered instances

An instance that nobody closes and of whose calls none is cancelled takes every call for its name
into its line, and each of its moves works on that line: it takes the next call, begins it, drives
its stream, or answers it.
-/

namespace Patchbay

variable {σ : Type}

/-! ## One move -/

/-- What a move at a time makes of an instance that goes on taking calls, if the call that it is at
is not cancelled, and what it replies. -/
inductive Instance.Serves (i : Instance σ) (now : Nat) : List Reply → Instance σ → Prop where
  | take {call : MethodCall} {rest : List MethodCall} (phase : i.phase = .idle)
      (queue : i.mailbox = call :: rest) :
      Serves i now [] { i with mailbox := rest, phase := .taken call }
  | unknown {call : MethodCall} (phase : i.phase = .taken call)
      (unknown : Table.find? i.component.methods call.method = none) :
      Serves i now [call.ticket.fail (.notFound "method" (i.name ++ "." ++ call.method))]
        { i with phase := .answered call.ticket.key }
  | start {call : MethodCall} {method : Method σ} (phase : i.phase = .taken call)
      (known : Table.find? i.component.methods call.method = some method) :
      Serves i now [] { i with phase := .begun call method }
  | answer {call : MethodCall} {run : σ → Value → Except Fault Value × σ}
      (phase : i.phase = .begun call (.instant run)) :
      Serves i now [call.ticket.finish (run i.component.state call.args).1]
        { i with
          component := i.component.ran call (.instant run)
          phase := .answered call.ticket.key }
  | refuse {call : MethodCall} {run : σ → Value → Except Fault Stream × σ} {f : Fault}
      (phase : i.phase = .begun call (.streaming run))
      (refused : (run i.component.state call.args).1 = .error f) :
      Serves i now [call.ticket.fail f]
        { i with
          component := i.component.ran call (.streaming run)
          phase := .answered call.ticket.key }
  | stream {call : MethodCall} {run : σ → Value → Except Fault Stream × σ} {s : Stream}
      (phase : i.phase = .begun call (.streaming run))
      (opened : (run i.component.state call.args).1 = .ok s) :
      Serves i now []
        { i with
          component := i.component.ran call (.streaming run)
          phase := .driving call.ticket (Drive.start s now) }
  | drive {t u : Ticket} {d e : Drive} {rs : List Reply} (phase : i.phase = .driving t d)
      (more : d.advance t false now = .more rs u e) :
      Serves i now rs { i with phase := .driving u e }
  | finish {t : Ticket} {d : Drive} {rs : List Reply} (phase : i.phase = .driving t d)
      (ended : d.advance t false now = .ended rs) :
      Serves i now rs { i with phase := .answered t.key }
  | resume {key : CallKey} (phase : i.phase = .answered key) :
      Serves i now [] { i with phase := .idle }

namespace Machine

variable {registry : Registry σ} {m k n : Machine σ} {l : Move}
  {es later : List (Occurrence σ)} {id now : Nat} {i j : Instance σ}

theorem stepInstance_serves (step : m.stepInstance? id now = some k)
    (found : Table.find? m.instances id = some i) (isOpen : m.isClosed i = false)
    (accepts : i.phase.accepts = true)
    (kept : ∀ t, i.phase.ticket? = some t → m.isCancelled t = false) :
    ∃ rs next, i.Serves now rs next ∧ k.replies = m.replies ++ rs ∧
      Table.find? k.instances id = some next := by
  simp only [stepInstance?, found, Option.bind_eq_bind, Option.bind_some] at step
  have set (n : Machine σ) (next : Instance σ) :
      Table.find? (n.setInstance id next).instances id = some next := find?_setInstance n id next
  cases phase : i.phase with
  | idle =>
    simp only [phase, isOpen, Bool.false_eq_true, if_false] at step
    split at step
    · cases step
    · next call rest queue =>
      cases step
      exact ⟨[], _, .take phase queue, (List.append_nil _).symm, set _ _⟩
  | taken call =>
    have running := kept call.ticket (by rw [phase]; rfl)
    simp only [phase, invoke, isOpen, running, Bool.or_false, Bool.false_eq_true, if_false] at step
    split at step
    · next unknown =>
      cases step
      exact ⟨_, _, .unknown phase unknown, rfl, set _ _⟩
    · next method known =>
      cases step
      exact ⟨[], _, .start phase known, (List.append_nil _).symm, set _ _⟩
  | begun call method =>
    simp only [phase, perform] at step
    cases method with
    | instant run =>
      cases step
      exact ⟨_, _, .answer phase, rfl, set _ _⟩
    | streaming run =>
      dsimp only at step
      cases opened : (run i.component.state call.args).1 with
      | ok s =>
        rw [opened] at step
        cases step
        exact ⟨[], _, .stream phase opened, (List.append_nil _).symm, set _ _⟩
      | error f =>
        rw [opened] at step
        cases step
        exact ⟨_, _, .refuse phase opened, rfl, set _ _⟩
  | driving t d =>
    have running := kept t (by rw [phase]; rfl)
    simp only [phase, isOpen, running, Bool.or_false] at step
    split at step
    · cases step
    · next rs u e more =>
      cases step
      exact ⟨rs, _, .drive phase more, rfl, set _ _⟩
    · next rs ended =>
      cases step
      exact ⟨rs, _, .finish phase ended, rfl, set _ _⟩
  | answered key =>
    simp only [phase] at step
    cases step
    exact ⟨[], _, .resume phase, (List.append_nil _).symm, set _ _⟩
  | closing | drained | ended =>
    rw [phase] at accepts
    cases accepts

/-! ## What is not hindered -/

/-- What is not closed was not closed before. -/
theorem Shift.open_before (shift : Shift m l k id i (m.effects l) j) (step : m.move? l = some k)
    (isOpen : k.isClosed j = false) : m.isClosed i = false := by
  have closes : m.isClosed i = true → k.isClosed j = true := by
    simp only [isClosed, Bool.or_eq_true]
    exact Or.imp (flags_of_move step).1 shift.deleted
  exact Bool.eq_false_iff.2 fun closed => Bool.eq_false_iff.1 isOpen (closes closed)

/-- Nobody has closed an instance or cancelled a call on it. -/
structure Unhindered (es : List (Occurrence σ)) (m : Machine σ) (id : Nat) (i : Instance σ) :
    Prop where
  isOpen : m.isClosed i = false
  kept : ∀ call ∈ callsOn id es, m.isCancelled call.ticket = false

/-- An instance that is not hindered was not hindered before. -/
theorem Unhindered.of_move (h : Unhindered (es ++ m.occurrences l k) k id j)
    (step : m.move? l = some k) (shift : Shift m l k id i (m.effects l) j) :
    Unhindered es m id i := by
  obtain ⟨stopping, tripped⟩ := flags_of_move step
  have cancels {t : Ticket} : m.isCancelled t = true → k.isCancelled t = true := by
    simp only [isCancelled, Bool.or_eq_true, List.contains_iff_mem]
    exact Or.imp stopping fun trips => tripped trips
  refine ⟨shift.open_before step h.isOpen, fun call member => ?_⟩
  have kept := h.kept call (callsOn_append id es _ ▸ List.mem_append_left _ member)
  exact Bool.eq_false_iff.2 fun cancelled => Bool.eq_false_iff.1 kept (cancels cancelled)

theorem Unhindered.of_run (whole : Run (init registry) es m)
    (found : Table.find? m.instances id = some i) (since : Run m later n)
    (there : Table.find? n.instances id = some j) (h : Unhindered (es ++ later) n id j) :
    Unhindered es m id i := by
  induction since generalizing j with
  | refl =>
    cases there.symm.trans found
    rwa [List.append_nil] at h
  | @move fs n k l before step ih =>
    obtain ⟨component, defined⟩ := whole.defined found
    have prior := whole.trans before
    obtain ⟨x, here⟩ := prior.known (List.mem_append_left _ defined) rfl
    obtain ⟨y, next, shift⟩ := (move_change step).shift prior.orderly.tidy here
    cases next.symm.trans there
    rw [← List.append_assoc] at h
    exact ih here (h.of_move step shift)
  | exchange other before ih => exact ih there ⟨h.isOpen, h.kept⟩

/-! ## Joining the line -/

/-- What a request does to the names in use: nothing, or a free name is defined, or the component of
a name is deleted. -/
theorem live_of_request (m : Machine σ) (r : Request) :
    (m.handle r).live = m.live ∨
      (∃ name, (m.handle r).live = Table.put m.live name m.serial ∧
        Table.find? m.live name = none) ∨
      ∃ name id, (m.handle r).live = Table.erase m.live name ∧
        Table.find? m.live name = some id ∧
        (m.handle r).instances =
          Table.modify m.instances id fun i => { i with deleted := true } := by
  cases r with
  | cancel origin tx =>
    simp only [handle, cancel]
    split <;> exact .inl rfl
  | execute origin target packet =>
    cases target with
    | function name =>
      simp only [handle, callFunction]
      split <;> exact .inl rfl
    | componentType type =>
      rcases makes_or_refusal m.registry (Table.keys m.live) type packet with
        ⟨name, component, makes, free⟩ | ⟨code, f, refusal⟩
      · rw [handle_define_of_makes makes free]
        refine .inr (.inl ⟨name, ?_, Table.find?_eq_none_iff.2 free⟩)
        rw [Table.put_of_not_mem _ free, afterDefine]
      · rw [handle_define_of_refusal refusal]
        exact .inl rfl
    | component name =>
      cases named : Table.find? m.live name with
      | none =>
        rw [handle_delete_missing (Table.find?_eq_none_iff.1 named)]
        exact .inl rfl
      | some id =>
        rw [handle_delete_named named]
        exact .inr (.inr ⟨name, id, rfl, named, rfl⟩)
    | method name method =>
      simp only [handle, callMethod]
      split
      · exact .inl rfl
      · split <;> exact .inl rfl

/-- No other move touches the names, unless the machine is stopping. -/
theorem live_of_other (step : m.move? l = some k) (other : l.asked = [])
    (running : m.stopping = false) : k.live = m.live := by
  cases l with
  | trip key => exact (trip_of_move step).2 ▸ rfl
  | request r => cases other
  | halt => cases running.symm.trans (halt_of_move step).1
  | notice =>
    obtain ⟨_, _, -, rfl⟩ := notice_of_move step
    rfl
  | stop =>
    cases step
    rfl
  | task id now => cases stepTask_move step <;> rfl
  | «instance» id now =>
    cases stepInstance_move step
    rfl
  | waiter id =>
    cases stepWaiter_move step
    rfl

/-- An instance that is not closed has its name. -/
theorem Run.named_of_open (run : Run (init registry) es m)
    (found : Table.find? m.instances id = some i) (isOpen : m.isClosed i = false) :
    Table.find? m.live i.name = some id := by
  refine Run.instance_induction (P := fun _ m id i => Table.find? m.instances id = some i →
    m.isClosed i = false → Table.find? m.live i.name = some id) ?_ ?_ ?_ run found found isOpen
  · intro es n k l id name component before step absent effects found isOpen
    have change := move_change step
    generalize n.effects l = happens at change effects
    cases change with
    | nothing | delete => cases effects
    | define asks instances live =>
      cases effects
      rw [live, Table.find?_put]
      exact if_pos rfl
    | queue => cases effects
    | @work _ other x =>
      have mine : .defined id name component ∈ x.effects other :=
        effects ▸ List.mem_singleton_self _
      simp [Instance.mem_effects] at mine
  · intro es n k l id i j before step there ih shift found isOpen
    have earlier := shift.open_before step isOpen
    have named := ih there earlier
    rw [shift.name]
    by_cases other : l.asked = []
    · have running : n.stopping = false := (Bool.or_eq_false_iff.1 earlier).1
      rw [live_of_other step other running]
      exact named
    · cases l with
      | request r =>
        obtain rfl := handle_of_request step
        rcases live_of_request n r with
          same | ⟨name, live, free⟩ | ⟨name, gone, live, known, marked⟩
        · rw [same]
          exact named
        · have apart : name ≠ i.name := by
            rintro rfl
            rw [free] at named
            cases named
          rw [live, Table.find?_put, if_neg apart]
          exact named
        · have apart : name ≠ i.name := by
            rintro rfl
            cases known.symm.trans named
            rw [marked, Table.find?_modify, there, Option.map_some, if_pos rfl] at found
            cases found
            simp [isClosed] at isOpen
          rw [live, Table.find?_erase, if_neg apart]
          exact named
      | _ => exact absurd rfl other
  · intro es n id i other ih
    exact ih

/-- A call that is taken for the name of an open instance joins its line. -/
theorem Run.joins (run : Run (init registry) es m) (found : Table.find? m.instances id = some i)
    (isOpen : m.isClosed i = false) (origin : ClientId) (method : String) (packet : Packet)
    (k : Machine σ) :
    callsOn id (es ++ m.occurrences (.request (.execute origin (.method i.name method) packet)) k) =
      callsOn id es ++
        [⟨.issue m.serial origin (.method i.name method) packet, method, packet.args⟩] := by
  have named := run.named_of_open found isOpen
  have accepts := run.accepts found isOpen
  rw [callsOn_append, callsOn_occurrences]
  simp [effects, requestEffects, named, found, accepts, callsOn, Occurrence.call?]

end Machine

end Patchbay
