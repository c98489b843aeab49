import Patchbay.Proofs.Machine.Chronicle

/-!
# Components and moves

What one move can do to one instance: nothing, or mark it as deleted, or queue a call on it, or let
it move by itself; and how what it does to an instance is what happens to that instance.
-/

namespace Patchbay

variable {σ : Type}

@[simp] theorem bodies_append (id : Nat) (es fs : List (Occurrence σ)) :
    bodies id (es ++ fs) = bodies id es ++ bodies id fs := List.filterMap_append

theorem Component.ranAll_append (c : Component σ) (runs more : List (MethodCall × Method σ)) :
    c.ranAll (runs ++ more) = (c.ranAll runs).ranAll more := List.foldl_append

/-- Bodies run on an instance only. -/
theorem bodies_eq_nil {id : Nat} {es : List (Occurrence σ)}
    (silent : ∀ o ∈ es, o.instance? ≠ some id) : bodies id es = [] := by
  apply List.filterMap_eq_nil_iff.2
  intro o member
  have other := silent o member
  cases o with
  | ran number call method =>
    have apart : number ≠ id := fun same => other (same ▸ rfl)
    simp [Occurrence.body?, apart]
  | _ => rfl

/-- What happens by the move of an instance is the body of a call or the teardown. -/
theorem Instance.mem_effects {i : Instance σ} {id : Nat} {o : Occurrence σ} :
    o ∈ i.effects id ↔
      (∃ call method, i.phase = .begun call method ∧ o = .ran id call method) ∨
        i.phase = .closing ∧ i.mailbox = [] ∧ o = .toreDown id i.component := by
  unfold effects
  split
  · next phase => simp [phase]
  · next phase =>
    split
    · next empty => simp [phase, List.isEmpty_iff.1 empty]
    · next waits =>
      have some : i.mailbox ≠ [] := fun none => waits (List.isEmpty_iff.2 none)
      simp [phase, some]
  · next others closing =>
    simp only [List.not_mem_nil, false_iff, not_or, not_exists, not_and]
    exact ⟨fun call method phase => absurd phase (others call method),
      fun phase => absurd phase closing⟩

theorem Instance.effects_instance (i : Instance σ) (id : Nat) :
    ∀ o ∈ i.effects id, o.instance? = some id := by
  intro o member
  rcases mem_effects.1 member with ⟨call, method, -, rfl⟩ | ⟨-, -, rfl⟩ <;> rfl

/-- The log grows by the lines of the hook that runs. -/
theorem Instance.hookLines_eq (i : Instance σ) (id : Nat) :
    i.hookLines = (i.effects id).flatMap Occurrence.lines := by
  unfold hookLines effects
  cases i.phase with
  | closing => cases i.mailbox <;> simp [Occurrence.lines]
  | _ => simp [Occurrence.lines]

/-- The calls that an instance has still to begin. -/
def Instance.waiting (i : Instance σ) : List MethodCall :=
  match i.phase with
  | .taken call => call :: i.mailbox
  | _ => i.mailbox

theorem Instance.waiting_queue (i : Instance σ) (call : MethodCall) :
    Instance.waiting { i with mailbox := i.mailbox ++ [call] } = i.waiting ++ [call] := by
  unfold waiting
  cases i.phase <;> simp

theorem Instance.held_of_waiting {i : Instance σ} {call : MethodCall} (waits : call ∈ i.waiting) :
    call.ticket ∈ i.held := by
  apply Machine.mem_heldInstance.2
  unfold waiting at waits
  split at waits
  · next taken phase =>
    rcases List.mem_cons.1 waits with rfl | queued
    · exact .inl (by rw [phase]; rfl)
    · exact .inr ⟨call, queued, rfl⟩
  · exact .inr ⟨call, waits, rfl⟩

/-- A queued call is held beside the one that an instance is at. -/
theorem Instance.held_behind {i : Instance σ} {t : Ticket} (current : i.phase.ticket? = some t)
    {call : MethodCall} (queued : call ∈ i.mailbox) : {t} + {call.ticket} ≤ i.held := by
  have ticket : call.ticket ∈ queuedTickets i.mailbox := by
    simpa [queuedTickets] using ⟨call, queued, rfl⟩
  rw [Instance.held_at current]
  exact add_le_add (le_refl _) (Multiset.singleton_le.2 ticket)

namespace InstanceStep

variable {closed : Bool} {i next : Instance σ} {rs : List Reply}

/-- The component changes by the body that runs. -/
theorem component (step : InstanceStep closed i rs next) (id : Nat) :
    next.component = i.component.ranAll (bodies id (i.effects id)) := by
  have still {es : List (Occurrence σ)} (effects : i.effects id = es)
      (quiet : es.filterMap (Occurrence.body? id) = []) :
      i.component = i.component.ranAll (bodies id (i.effects id)) := by
    rw [bodies, effects, quiet]
    rfl
  have body {call : MethodCall} {method : Method σ} (phase : i.phase = .begun call method) :
      i.component.ran call method = i.component.ranAll (bodies id (i.effects id)) := by
    simp [Instance.effects, phase, bodies, Occurrence.body?, Component.ranAll]
  cases step with
  | answer phase last => exact body phase
  | stream s now phase => exact body phase
  | close phase | take phase | refuse f phase | start phase | drive phase | finish phase
  | resume phase | reopen phase => exact still (by rw [Instance.effects, phase]) rfl
  | drain phase queue =>
    exact still (by rw [Instance.effects, phase, queue]) rfl
  | tearDown phase queue =>
    exact still (by rw [Instance.effects, phase, queue]) rfl

/-- An instance ends with its teardown. -/
theorem toreDown_iff (step : InstanceStep closed i rs next) (id : Nat) :
    TornDown (i.effects id) id ↔ next.phase.hasEnded := by
  unfold TornDown
  cases step with
  | close phase | take phase | refuse f phase | start phase | answer phase | stream s now phase
  | drive phase | finish phase | resume phase | reopen phase =>
    simp [Instance.effects, phase, Phase.hasEnded]
  | drain phase queue => simp [Instance.effects, phase, queue, Phase.hasEnded]
  | tearDown phase queue => simp [Instance.effects, phase, queue, Phase.hasEnded]

/-- An instance that has ended moves no more. -/
theorem running (step : InstanceStep closed i rs next) : i.phase.hasEnded = false := by
  cases step with
  | close phase | take phase | refuse f phase | start phase | answer phase | stream s now phase
  | drive phase | finish phase | resume phase | reopen phase | drain phase | tearDown phase =>
    rw [phase]
    rfl

/-- A waiting call goes on waiting without a reply, or is refused, or is begun by an instance that is
not closed. -/
theorem waiting (step : InstanceStep closed i rs next)
    (apart : ∀ {t u : Ticket}, {t} + {u} ≤ i.held → t.serial ≠ u.serial) {call : MethodCall}
    (waits : call ∈ i.waiting) :
    (call ∈ next.waiting ∧ ∀ r ∈ rs, r.serial ≠ call.ticket.serial) ∨
      (∃ f, rs = [call.ticket.fail f]) ∨
      closed = false ∧ ∃ method, next.phase = .begun call method := by
  have passed {t : Ticket} (current : i.phase.ticket? = some t) (queued : call ∈ i.mailbox)
      (serial : ∀ r ∈ rs, r.serial = t.serial) : ∀ r ∈ rs, r.serial ≠ call.ticket.serial := by
    intro r sent same
    exact apart (Instance.held_behind current queued) ((serial r sent).symm.trans same)
  cases step with
  | close phase | resume phase | reopen phase | tearDown phase =>
    rw [Instance.waiting, phase] at waits
    exact .inl ⟨waits, by simp⟩
  | take phase isOpen queue =>
    rw [Instance.waiting, phase, queue] at waits
    exact .inl ⟨waits, by simp⟩
  | @refuse taken f phase =>
    rw [Instance.waiting, phase] at waits
    rcases List.mem_cons.1 waits with rfl | queued
    · exact .inr (.inl ⟨f, rfl⟩)
    · have current : i.phase.ticket? = some taken.ticket := by rw [phase]; rfl
      exact .inl ⟨queued, passed current queued (by simp [Ticket.fail, Ticket.reply])⟩
  | @start taken method phase isOpen =>
    rw [Instance.waiting, phase] at waits
    rcases List.mem_cons.1 waits with rfl | queued
    · exact .inr (.inr ⟨isOpen, method, rfl⟩)
    · exact .inl ⟨queued, by simp⟩
  | @answer ran method r phase last =>
    rw [Instance.waiting, phase] at waits
    have current : i.phase.ticket? = some ran.ticket := by rw [phase]; rfl
    exact .inl ⟨waits, passed current waits (by simp [last.serial])⟩
  | stream s now phase =>
    rw [Instance.waiting, phase] at waits
    exact .inl ⟨waits, by simp⟩
  | @drive t _ _ _ _ phase paid =>
    rw [Instance.waiting, phase] at waits
    have current : i.phase.ticket? = some t := by rw [phase]; rfl
    exact .inl ⟨waits, passed current waits paid.serial.1⟩
  | @finish t _ _ phase paid =>
    rw [Instance.waiting, phase] at waits
    have current : i.phase.ticket? = some t := by rw [phase]; rfl
    exact .inl ⟨waits, passed current waits paid.serial.1⟩
  | @drain first rest phase queue =>
    rw [Instance.waiting, phase, queue] at waits
    rcases List.mem_cons.1 waits with rfl | queued
    · exact .inr (.inl ⟨_, rfl⟩)
    · refine .inl ⟨queued, fun r sent same => ?_⟩
      have both : {first.ticket} + {call.ticket} ≤ i.held := by
        have ticket : call.ticket ∈ queuedTickets rest := by
          simpa [queuedTickets] using ⟨call, queued, rfl⟩
        rw [Instance.held_idle (by rw [phase]; rfl), queue, queuedTickets_cons]
        exact add_le_add (le_refl _) (Multiset.singleton_le.2 ticket)
      rw [List.mem_singleton.1 sent] at same
      exact apart both same

end InstanceStep

namespace Machine

variable {registry : Registry σ} {m k n : Machine σ} {l : Move} {es : List (Occurrence σ)}
  {id : Nat} {i j : Instance σ} {call : MethodCall}

/-! ## One move and one instance -/

/-- What a move does to one instance, and which of what happens is about it. -/
inductive Shift (m : Machine σ) (l : Move) (k : Machine σ) (id : Nat) (i : Instance σ)
    (es : List (Occurrence σ)) : Instance σ → Prop where
  | rest (others : l.holder? ≠ some (.instance id)) (silent : ∀ o ∈ es, o.instance? ≠ some id) :
      Shift m l k id i es i
  | mark {name : String} (asks : l.holder? = none) (named : Table.find? m.live name = some id)
      (effects : es = []) : Shift m l k id i es { i with deleted := true }
  | queue {name : String} {call : MethodCall} (asks : l.holder? = none)
      (named : Table.find? m.live name = some id) (accepts : i.phase.accepts)
      (serial : call.ticket.serial = m.serial) (replies : k.replies = m.replies)
      (effects : es = [.queued id call]) :
      Shift m l k id i es { i with mailbox := i.mailbox ++ [call] }
  | work {next : Instance σ} {rs : List Reply} (moves : l.holder? = some (.instance id))
      (step : InstanceStep (m.isClosed i) i rs next) (replies : k.replies = m.replies ++ rs)
      (effects : es = i.effects id) : Shift m l k id i es next

/-- An instance is there after a move as it was before, but for its part in the move. -/
theorem Change.shift (change : Change m l es k) (tidy : m.Tidy m.serial)
    (found : Table.find? m.instances id = some i) :
    ∃ j, Table.find? k.instances id = some j ∧ Shift m l k id i es j := by
  cases change with
  | nothing others instances live => exact ⟨i, instances ▸ found, .rest (others id) (by simp)⟩
  | @define _ name component asks instances live =>
    have old : id < m.serial :=
      tidy.instances.below id (List.mem_map_of_mem (Table.mem_of_find? found))
    refine ⟨i, ?_, .rest (by simp [asks]) ?_⟩
    · rw [instances, Table.find?_append, found]
      rfl
    · intro o member same
      rw [List.mem_singleton.1 member] at same
      cases same
      omega
  | @delete _ name other asks named instances live =>
    rw [instances, Table.find?_modify, found]
    by_cases same : other = id
    · subst same
      exact ⟨_, by rw [Option.map_some, if_pos rfl], .mark asks named rfl⟩
    · exact ⟨i, by rw [Option.map_some, if_neg same], .rest (by simp [asks]) (by simp)⟩
  | @queue _ name other x call asks named there accepts serial instances live replies =>
    rw [instances, Table.find?_modify, found]
    by_cases same : other = id
    · subst same
      cases there.symm.trans found
      have added := Shift.queue (k := k) (i := i) asks named accepts serial replies rfl
      exact ⟨_, by rw [Option.map_some, if_pos rfl], added⟩
    · refine ⟨i, by rw [Option.map_some, if_neg same], .rest (by simp [asks]) ?_⟩
      intro o member equal
      rw [List.mem_singleton.1 member] at equal
      exact same (Option.some.inj equal)
  | @work _ other x next rs moves there step instances live replies =>
    rw [instances, Table.find?_put]
    by_cases same : other = id
    · subst same
      cases there.symm.trans found
      exact ⟨next, if_pos rfl, .work moves step replies rfl⟩
    · refine ⟨i, by rw [if_neg same, found], .rest ?_ ?_⟩
      · rw [moves]
        intro equal
        exact same (Holder.instance.inj (Option.some.inj equal))
      · intro o member equal
        rw [x.effects_instance other o member] at equal
        exact same (Option.some.inj equal)

/-- An instance that was not there before was just defined. -/
theorem Change.born (change : Change m l es k) (absent : Table.find? m.instances id = none)
    (found : Table.find? k.instances id = some j) :
    ∃ name component, id = m.serial ∧ j = newborn name component ∧
      es = [.defined id name component] := by
  cases change with
  | nothing others instances live =>
    rw [instances, absent] at found
    cases found
  | @define _ name component asks instances live =>
    rw [instances, Table.find?_append, absent, Option.none_or, Table.find?_cons] at found
    split at found
    · next same =>
      cases found
      exact ⟨name, component, same.symm, rfl, same ▸ rfl⟩
    · cases found
  | delete asks named instances live =>
    rw [instances, Table.find?_modify, absent] at found
    cases found
  | queue asks named there accepts serial instances live replies =>
    rw [instances, Table.find?_modify, absent] at found
    cases found
  | @work _ other x next rs moves there step instances live replies =>
    rw [instances, Table.find?_put] at found
    split at found
    · next same =>
      rw [← same, there] at absent
      cases absent
    · rw [absent] at found
      cases found

/-- What happens to an instance happens to one that is there afterwards. -/
theorem Change.known (change : Change m l es k) {o : Occurrence σ} (member : o ∈ es)
    (touches : o.instance? = some id) : ∃ j, Table.find? k.instances id = some j := by
  cases change with
  | nothing others instances live => cases member
  | @define _ name component asks instances live =>
    rw [List.mem_singleton.1 member] at touches
    cases touches
    apply Table.exists_of_mem_keys
    rw [instances]
    simp [Table.keys]
  | delete asks named instances live => cases member
  | @queue _ name other x call asks named there accepts serial instances live replies =>
    rw [List.mem_singleton.1 member] at touches
    cases touches
    rw [instances, Table.find?_modify, there]
    exact ⟨_, rfl⟩
  | @work _ other x next rs moves there step instances live replies =>
    rw [x.effects_instance other o member] at touches
    cases touches
    rw [instances, Table.find?_put, if_pos rfl]
    exact ⟨next, rfl⟩

/-! ## What a move tells -/

/-- The requests that were taken. -/
def requestsIn (es : List (Occurrence σ)) : List Request := es.filterMap Occurrence.request?

/-- What a move does to components touches instances only. -/
theorem Change.touches (change : Change m l es k) : ∀ o ∈ es, ∃ id, o.instance? = some id := by
  cases change with
  | nothing | delete => simp
  | define | queue => simp [Occurrence.instance?]
  | @work _ id i => exact fun o member => ⟨id, i.effects_instance id o member⟩

/-- At most one thing happens to the components in a move. -/
theorem Change.length_le_one (change : Change m l es k) : es.length ≤ 1 := by
  cases change with
  | nothing | delete | define | queue => simp
  | @work _ id i =>
    unfold Instance.effects
    split
    · simp
    · split <;> simp
    · simp

theorem requestsIn_occurrences (change : Change m l (m.effects l) k) :
    requestsIn (m.occurrences l k) = l.asked := by
  have quiet : requestsIn (m.effects l) = [] := by
    apply List.filterMap_eq_nil_iff.2
    intro o member
    obtain ⟨id, touches⟩ := change.touches o member
    cases o with
    | took r => cases touches
    | _ => rfl
  have asked : requestsIn (l.asked.map Occurrence.took : List (Occurrence σ)) = l.asked := by
    simp [requestsIn, List.filterMap_map, Function.comp_def, Occurrence.request?]
  have sent (rs : List Reply) : requestsIn (rs.map Occurrence.sent : List (Occurrence σ)) = [] := by
    simp [requestsIn, List.filterMap_map, Function.comp_def, Occurrence.request?]
  rw [occurrences]
  unfold requestsIn at quiet asked sent ⊢
  rw [List.filterMap_append, List.filterMap_append, asked, quiet, sent]
  simp

/-- What happens to the components in a move, apart from the rest. -/
theorem filter_occurrences (change : Change m l (m.effects l) k) :
    (m.occurrences l k).filter (fun o => o.instance?.isSome) = m.effects l := by
  have touched : (m.effects l).filter (fun o => o.instance?.isSome) = m.effects l := by
    apply List.filter_eq_self.2
    intro o member
    obtain ⟨id, touches⟩ := change.touches o member
    simp [touches]
  have asked : (l.asked.map Occurrence.took : List (Occurrence σ)).filter
      (fun o => o.instance?.isSome) = [] :=
    List.filter_eq_nil_iff.2 (by simp [Occurrence.instance?])
  have sent (rs : List Reply) : (rs.map Occurrence.sent : List (Occurrence σ)).filter
      (fun o => o.instance?.isSome) = [] :=
    List.filter_eq_nil_iff.2 (by simp [Occurrence.instance?])
  rw [occurrences, List.filter_append, List.filter_append, asked, touched, sent, List.nil_append,
    List.append_nil]

theorem mem_occurrences (change : Change m l (m.effects l) k) {o : Occurrence σ}
    (touches : o.instance? = some id) : o ∈ m.occurrences l k ↔ o ∈ m.effects l := by
  rw [← filter_occurrences change, List.mem_filter]
  simp [touches]

theorem bodies_occurrences (m : Machine σ) (l : Move) (k : Machine σ) (id : Nat) :
    bodies id (m.occurrences l k) = bodies id (m.effects l) := by
  have asked : bodies id (l.asked.map Occurrence.took : List (Occurrence σ)) = [] :=
    bodies_eq_nil (by simp [Occurrence.instance?])
  have sent (rs : List Reply) : bodies id (rs.map Occurrence.sent : List (Occurrence σ)) = [] :=
    bodies_eq_nil (by simp [Occurrence.instance?])
  rw [occurrences, bodies_append, bodies_append, asked, sent, List.nil_append, List.append_nil]

theorem tornDown_append (es fs : List (Occurrence σ)) (id : Nat) :
    TornDown (es ++ fs) id ↔ TornDown es id ∨ TornDown fs id := by
  simp [TornDown, exists_or]

theorem tornDown_occurrences (change : Change m l (m.effects l) k) (id : Nat) :
    TornDown (m.occurrences l k) id ↔ TornDown (m.effects l) id := by
  unfold TornDown
  constructor
  · rintro ⟨component, member⟩
    exact ⟨component, (mem_occurrences change rfl).1 member⟩
  · rintro ⟨component, member⟩
    exact ⟨component, (mem_occurrences change rfl).2 member⟩

/-! ## The log -/

theorem lines_requestEffects (m : Machine σ) (r : Request) :
    (m.requestEffects r).flatMap Occurrence.lines = [] := by
  have change := handle_change (m := m) (l := .request r) rfl r
  generalize m.requestEffects r = effects at change ⊢
  cases change with
  | nothing | delete => rfl
  | define | queue => simp [Occurrence.lines]
  | work moves => cases moves

theorem handle_log (m : Machine σ) (r : Request) : (m.handle r).log = m.log := by
  have moved := m.handle_moved r
  generalize m.handle r = k at moved ⊢
  generalize asked : [r] = requests at moved
  cases moved with
  | execute move => cases move <;> rfl
  | cancel => rfl
  | _ => cases asked

/-- The log grows by what the teardown hooks write. -/
theorem log_of_move (step : m.move? l = some k) :
    k.log = m.log ++ (m.effects l).flatMap Occurrence.lines := by
  cases l with
  | request r =>
    rw [← handle_of_request step, handle_log, effects, lines_requestEffects, List.append_nil]
  | trip | stop | halt | notice =>
    obtain ⟨n, -, rfl⟩ := upkeep_of_move rfl step
    exact (List.append_nil _).symm
  | task id now =>
    cases stepTask_move step <;> exact (List.append_nil _).symm
  | «instance» id now =>
    cases stepInstance_move step with
    | @work i next rs notices found worked =>
      simp only [effects, found, Option.elim_some, i.hookLines_eq id]
  | waiter id =>
    cases stepWaiter_move step
    exact (List.append_nil _).symm

theorem lines_occurrences (change : Change m l (m.effects l) k) :
    (m.occurrences l k).flatMap Occurrence.lines = (m.effects l).flatMap Occurrence.lines := by
  rw [← filter_occurrences change]
  induction m.occurrences l k with
  | nil => rfl
  | cons o rest ih => cases o <;> simp [Occurrence.instance?, Occurrence.lines, ih]

end Machine

end Patchbay
