import Patchbay.Proofs.Machine.Components

/-!
# Calls on components

What a run from the start says about the components of a machine: whose name a name in use is, in
which state an instance is by the bodies that ran on it, which calls were queued on it and how far
each of them is, and that nothing happens to it behind its teardown.
-/

namespace Patchbay.Machine

variable {σ : Type} {registry : Registry σ} {m k n : Machine σ} {l : Move}
  {es : List (Occurrence σ)} {id : Nat} {i : Instance σ} {call : MethodCall}

/-! ## Runs from the start -/

/-- A run from the start is a history of the requests that it takes. -/
theorem Run.history (run : Run (init registry) es m) : History (requestsIn es) m := by
  induction run with
  | refl => exact .start registry
  | @move es n k l before step ih =>
    have asked := requestsIn_occurrences (move_change step)
    have next := ih.move l step
    rw [← asked] at next
    unfold requestsIn at next ⊢
    rwa [List.filterMap_append]
  | exchange registry before ih => exact ih.exchange registry

theorem Run.orderly (run : Run (init registry) es m) : m.Orderly (requestsIn es) :=
  run.history.orderly

/-- The replies that were sent are the replies of the machine. -/
theorem Run.sent_iff (run : Run (init registry) es m) (r : Reply) :
    .sent r ∈ es ↔ r ∈ m.replies := by
  induction run with
  | refl => simp [init]
  | @move es n k l before step ih =>
    obtain ⟨rs, replies, -⟩ := replies_of_move step
    have effects : .sent r ∉ n.effects l := by
      intro member
      obtain ⟨id, touches⟩ := (move_change step).touches _ member
      cases touches
    simp [occurrences, effects, replies, ih]
  | exchange registry before ih => exact ih

/-- Whatever happened to an instance, it is there. -/
theorem Run.known (run : Run (init registry) es m) {o : Occurrence σ} (member : o ∈ es)
    (touches : o.instance? = some id) : ∃ i, Table.find? m.instances id = some i := by
  induction run with
  | refl => cases member
  | @move es n k l before step ih =>
    have change := move_change step
    rcases List.mem_append.1 member with old | new
    · obtain ⟨i, found⟩ := ih old
      obtain ⟨j, there, -⟩ := change.shift before.orderly.tidy found
      exact ⟨j, there⟩
    · exact change.known ((mem_occurrences change touches).1 new) touches
  | exchange registry before ih => exact ih member

/-- What holds of an instance when it is defined, and goes on to hold in whatever moves, holds of
every instance in every run. -/
theorem Run.instance_induction {P : List (Occurrence σ) → Machine σ → Nat → Instance σ → Prop}
    (born : ∀ {es : List (Occurrence σ)} {n k : Machine σ} {l : Move} {id : Nat} {name : String}
      {component : Component σ}, Run (init registry) es n → n.move? l = some k →
      Table.find? n.instances id = none → n.effects l = [.defined id name component] →
      P (es ++ n.occurrences l k) k id (newborn name component))
    (shift : ∀ {es : List (Occurrence σ)} {n k : Machine σ} {l : Move} {id : Nat}
      {i j : Instance σ}, Run (init registry) es n → n.move? l = some k →
      Table.find? n.instances id = some i → P es n id i → Shift n l k id i (n.effects l) j →
      P (es ++ n.occurrences l k) k id j)
    (exchange : ∀ {es : List (Occurrence σ)} {n : Machine σ} {id : Nat} {i : Instance σ}
      (other : Registry σ), P es n id i → P es { n with registry := other } id i)
    (run : Run (init registry) es m) (found : Table.find? m.instances id = some i) :
    P es m id i := by
  induction run generalizing id i with
  | refl => cases found
  | @move es n k l before step ih =>
    have change := move_change step
    cases old : Table.find? n.instances id with
    | none =>
      obtain ⟨name, component, -, rfl, effects⟩ := change.born old found
      exact born before step old effects
    | some x =>
      obtain ⟨j, there, shifted⟩ := change.shift before.orderly.tidy old
      cases there.symm.trans found
      exact shift before step old (ih old) shifted
  | exchange other before ih => exact exchange other (ih found)

/-! ## Names and states -/

/-- A name in use is the name of its instance, which is not deleted. -/
theorem Run.named (run : Run (init registry) es m) {name : String}
    (named : Table.find? m.live name = some id) :
    ∃ i, Table.find? m.instances id = some i ∧ i.name = name ∧ i.deleted = false := by
  induction run generalizing name id with
  | refl => cases named
  | @move es n k l before step ih =>
    have bound := before.orderly.tidy.instances
    have change := move_change step
    generalize n.effects l = effects at change
    cases change with
    | nothing others instances live =>
      rw [instances]
      exact ih (live name id named)
    | @define _ made component asks instances live =>
      rw [live, Table.find?_put] at named
      rw [instances]
      split at named
      · next same =>
        cases named
        have free : Table.find? n.instances n.serial = none := by
          cases taken : Table.find? n.instances n.serial with
          | none => rfl
          | some i =>
            have below := bound.below _ (List.mem_map_of_mem (Table.mem_of_find? taken))
            exact absurd below (Nat.lt_irrefl _)
        refine ⟨newborn made component, ?_, same, rfl⟩
        rw [Table.find?_append, free, Option.none_or, Table.find?_cons, if_pos rfl]
      · obtain ⟨i, found, told⟩ := ih named
        refine ⟨i, ?_, told⟩
        rw [Table.find?_append, found]
        rfl
    | @delete _ gone other asks deleted instances live =>
      rw [live, Table.find?_erase] at named
      split at named
      · cases named
      · next different =>
        obtain ⟨i, found, called, kept⟩ := ih named
        obtain ⟨x, there, title, -⟩ := ih deleted
        have apart : other ≠ id := by
          intro same
          subst same
          cases there.symm.trans found
          exact different (title.symm.trans called)
        refine ⟨i, ?_, called, kept⟩
        rw [instances, Table.find?_modify, found, Option.map_some, if_neg apart]
    | @queue _ title other x call asks known there accepts serial instances live replies =>
      rw [live] at named
      obtain ⟨i, found, called, kept⟩ := ih named
      rw [instances, Table.find?_modify, found]
      refine ⟨_, rfl, ?_⟩
      split <;> exact ⟨called, kept⟩
    | @work _ other x next rs moves there worked instances live replies =>
      rw [live] at named
      obtain ⟨i, found, called, kept⟩ := ih named
      rw [instances, Table.find?_put]
      split
      · next same =>
        subst same
        cases there.symm.trans found
        exact ⟨next, rfl, worked.name.trans called, worked.deleted.trans kept⟩
      · exact ⟨i, found, called, kept⟩
  | exchange other before ih => exact ih named

/-- An instance is in the state that its factory made, changed by the bodies that ran on it. -/
theorem Run.state (run : Run (init registry) es m) (found : Table.find? m.instances id = some i)
    {name : String} {component : Component σ} (defined : .defined id name component ∈ es) :
    i.name = name ∧ i.component = component.ranAll (bodies id es) := by
  revert name component
  refine Run.instance_induction (P := fun es _ id i => ∀ {name : String} {component : Component σ},
    .defined id name component ∈ es →
      i.name = name ∧ i.component = component.ranAll (bodies id es)) ?_ ?_ ?_ run found
  · intro es n k l id made first before step absent effects name component defined
    have fresh : ∀ o ∈ es, o.instance? ≠ some id := by
      intro o member touches
      obtain ⟨x, there⟩ := before.known member touches
      rw [absent] at there
      cases there
    rcases List.mem_append.1 defined with old | new
    · exact absurd rfl (fresh _ old)
    · rw [mem_occurrences (move_change step) rfl, effects, List.mem_singleton] at new
      cases new
      refine ⟨rfl, ?_⟩
      rw [bodies_append, bodies_eq_nil fresh, bodies_occurrences, effects]
      rfl
  · intro es n k l id i j before step there ih shift name component defined
    have old : .defined id name component ∈ es := by
      rcases List.mem_append.1 defined with old | new
      · exact old
      · rw [mem_occurrences (move_change step) rfl] at new
        cases shift with
        | rest others silent => exact absurd rfl (silent _ new)
        | mark asks named effects => simp [effects] at new
        | queue asks named accepts serial replies effects => simp [effects] at new
        | work moves worked replies effects => simp [effects, Instance.mem_effects] at new
    obtain ⟨called, state⟩ := ih old
    rw [bodies_append, bodies_occurrences, Component.ranAll_append, ← state]
    cases shift with
    | rest others silent => exact ⟨called, by rw [bodies_eq_nil silent]; rfl⟩
    | mark asks named effects => exact ⟨called, by rw [effects]; rfl⟩
    | queue asks named accepts serial replies effects => exact ⟨called, by rw [effects]; rfl⟩
    | work moves worked replies effects =>
      rw [effects]
      exact ⟨worked.name.trans called, worked.component id⟩
  · intro es n id i other ih
    exact ih

/-! ## How far a call is -/

/-- A call that was queued is an execute that was taken. -/
theorem Run.owed (run : Run (init registry) es m) (queued : .queued id call ∈ es) :
    ∃ origin target packet,
      (requestsIn es)[call.ticket.serial]? = some (.execute origin target packet) := by
  induction run with
  | refl => cases queued
  | @move es n k l before step ih =>
    have change := move_change step
    rcases List.mem_append.1 queued with old | new
    · obtain ⟨origin, target, packet, asked⟩ := ih old
      have inside := (List.getElem?_eq_some_iff.1 asked).1
      refine ⟨origin, target, packet, ?_⟩
      rw [requestsIn, List.filterMap_append]
      exact (List.getElem?_append_left inside).trans asked
    · rw [mem_occurrences change rfl] at new
      have after : k.Orderly (requestsIn (es ++ n.occurrences l k)) := (before.move l step).orderly
      apply after.sound.owed
      generalize n.effects l = effects at change new
      cases change with
      | nothing others instances live => cases new
      | define asks instances live => simp at new
      | delete asks named instances live => cases new
      | @queue _ name other x made asks named there accepts serial instances live replies =>
        cases List.mem_singleton.1 new
        have found : Table.find? k.instances id =
            some { x with mailbox := x.mailbox ++ [call] } := by
          rw [instances, Table.find?_modify, there, Option.map_some, if_pos rfl]
        have held : call.ticket ∈ k.heldAt (.instance id) := by
          rw [heldAt_instance found]
          exact mem_heldInstance.2 (.inr ⟨call, by simp, rfl⟩)
        exact Multiset.mem_of_le (k.heldAt_le _) held
      | work => simp [Instance.mem_effects] at new
  | exchange other before ih => exact ih queued

/-- Only a call that an instance holds is run. -/
theorem effects_ran (change : Change m l (m.effects l) k) {method : Method σ}
    (ran : .ran id call method ∈ m.effects l) :
    ∃ i, Table.find? m.instances id = some i ∧ i.phase = .begun call method := by
  generalize m.effects l = effects at change ran
  cases change with
  | nothing | delete => cases ran
  | define | queue => simp at ran
  | @work _ other x next rs moves there worked instances live replies =>
    rcases Instance.mem_effects.1 ran with ⟨made, by_, phase, same⟩ | ⟨-, -, different⟩
    · cases same
      exact ⟨x, there, phase⟩
    · cases different

theorem heldAt_of_begun {method : Method σ} (found : Table.find? m.instances id = some i)
    (begun : i.phase = .begun call method) : call.ticket ∈ m.heldAt (.instance id) := by
  rw [heldAt_instance found]
  exact mem_heldInstance.2 (.inl (by rw [begun]; rfl))

/-- Bodies run for calls that were taken earlier. -/
theorem Run.ran_lt (run : Run (init registry) es m) {method : Method σ}
    (ran : .ran id call method ∈ es) : call.ticket.serial < m.serial := by
  induction run with
  | refl => cases ran
  | @move es n k l before step ih =>
    have later : n.serial ≤ k.serial := by
      rw [(move_moved step).serial]
      omega
    rcases List.mem_append.1 ran with old | new
    · have := ih old
      omega
    · have change := move_change step
      obtain ⟨i, found, begun⟩ := effects_ran change ((mem_occurrences change rfl).1 new)
      have held := Multiset.mem_of_le (n.heldAt_le _) (heldAt_of_begun found begun)
      have below := before.orderly.sound.serial_lt (l := n.ledger _) held
      have number := before.orderly.number
      simp only [ledger] at below
      omega
  | exchange other before ih => exact ih ran

/-- A call that was queued on an instance is held by it, or has its last reply. -/
theorem Run.settled (run : Run (init registry) es m) (found : Table.find? m.instances id = some i)
    (queued : .queued id call ∈ es) :
    (∃ t ∈ i.held, t.serial = call.ticket.serial) ∨
      ∃ r ∈ m.repliesTo call.ticket.serial, r.packet.isTerminal = true := by
  revert call
  refine Run.instance_induction (P := fun es m id i => ∀ {call : MethodCall},
    .queued id call ∈ es → (∃ t ∈ i.held, t.serial = call.ticket.serial) ∨
      ∃ r ∈ m.repliesTo call.ticket.serial, r.packet.isTerminal = true) ?_ ?_ ?_ run found
  · intro es n k l id name component before step absent effects call queued
    rcases List.mem_append.1 queued with old | new
    · obtain ⟨x, there⟩ := before.known old rfl
      rw [absent] at there
      cases there
    · rw [mem_occurrences (move_change step) rfl, effects] at new
      simp at new
  · intro es n k l id i j before step there ih shift call queued
    obtain ⟨sent, replies, -⟩ := replies_of_move step
    have kept {r : Reply} (here : r ∈ n.repliesTo call.ticket.serial) :
        r ∈ k.repliesTo call.ticket.serial := by
      rw [repliesTo, replies, Ledger.repliesTo_append]
      exact List.mem_append_left _ here
    rcases List.mem_append.1 queued with old | new
    · rcases ih old with ⟨t, held, serial⟩ | ⟨r, here, terminal⟩
      · cases shift with
        | rest others silent => exact .inl ⟨t, held, serial⟩
        | mark asks named effects => exact .inl ⟨t, held, serial⟩
        | queue asks named accepts number same effects =>
          refine .inl ⟨t, ?_, serial⟩
          rcases mem_heldInstance.1 held with current | ⟨other, waits, ticket⟩
          · exact mem_heldInstance.2 (.inl current)
          · exact mem_heldInstance.2 (.inr ⟨other, List.mem_append_left _ waits, ticket⟩)
        | work moves worked same effects =>
          rcases worked.paid.kept_or_settled held with ⟨u, left, number⟩ | ⟨r, paid, number, last⟩
          · exact .inl ⟨u, left, number.trans serial⟩
          · refine .inr ⟨r, ?_, last⟩
            rw [repliesTo, same, Ledger.repliesTo_append]
            apply List.mem_append_right
            simp [Ledger.repliesTo, paid, number, serial]
      · exact .inr ⟨r, kept here, terminal⟩
    · rw [mem_occurrences (move_change step) rfl] at new
      cases shift with
      | rest others silent => exact absurd rfl (silent _ new)
      | mark asks named effects => simp [effects] at new
      | @queue _ made asks named accepts number same effects =>
        rw [effects] at new
        cases List.mem_singleton.1 new
        exact .inl ⟨call.ticket, mem_heldInstance.2 (.inr ⟨call, by simp, rfl⟩), rfl⟩
      | work moves worked replies effects => simp [effects, Instance.mem_effects] at new
  · intro es n id i other ih
    exact ih

/-- A call that was begun, or whose body ran before. -/
def Started (es : List (Occurrence σ)) (id : Nat) (i : Instance σ) (call : MethodCall) : Prop :=
  ∃ method, .ran id call method ∈ es ∨ i.phase = .begun call method

/-- A call whose body never ran: it waits without a reply, or a failure is its only reply. -/
structure Unstarted (es : List (Occurrence σ)) (m : Machine σ) (i : Instance σ)
    (call : MethodCall) : Prop where
  silent : ∀ id (other : MethodCall) method, .ran id other method ∈ es →
    other.ticket.serial ≠ call.ticket.serial
  stands : call ∈ i.waiting ∧ m.repliesTo call.ticket.serial = [] ∨
    ∃ f, m.repliesTo call.ticket.serial = [call.ticket.fail f]

/-- A call that was started stays so. -/
theorem Started.shift {j : Instance σ} (h : Started es id i call) (step : m.move? l = some k)
    (shift : Shift m l k id i (m.effects l) j) :
    Started (es ++ m.occurrences l k) id j call := by
  obtain ⟨method, ran | begun⟩ := h
  · exact ⟨method, .inl (List.mem_append_left _ ran)⟩
  · cases shift with
    | rest others silent => exact ⟨method, .inr begun⟩
    | mark asks named effects => exact ⟨method, .inr begun⟩
    | queue asks named accepts serial replies effects => exact ⟨method, .inr begun⟩
    | work moves worked replies effects =>
      refine ⟨method, .inl (List.mem_append_right _ ?_)⟩
      rw [mem_occurrences (move_change step) rfl, effects, Instance.mem_effects]
      exact .inl ⟨call, method, begun, rfl⟩

/-- Nobody but the holder of an unstarted call's ticket has a ticket with its number. -/
theorem Unstarted.other_begun {other : Nat} {x : Instance σ} {begun : MethodCall}
    {method : Method σ} (h : Unstarted es m i call) (run : Run (init registry) es m)
    (queued : .queued id call ∈ es) (found : Table.find? m.instances id = some i)
    (there : Table.find? m.instances other = some x) (phase : x.phase = .begun begun method) :
    begun.ticket.serial ≠ call.ticket.serial := by
  have orderly := run.orderly
  have held := heldAt_of_begun there phase
  rcases h.stands with ⟨waits, -⟩ | ⟨f, refused⟩
  · by_cases same : other = id
    · subst same
      cases there.symm.trans found
      apply orderly.sound.apart
      have queue : call ∈ i.mailbox := by
        rw [Instance.waiting, phase] at waits
        exact waits
      have both := Instance.held_behind (i := i) (by rw [phase]; rfl) queue
      exact both.trans (heldAt_instance found ▸ m.heldAt_le (.instance other))
    · have different : Holder.instance other ≠ .instance id :=
        fun equal => same (Holder.instance.inj equal)
      apply orderly.apart different held
      rw [heldAt_instance found]
      exact Instance.held_of_waiting waits
  · obtain ⟨origin, target, packet, asked⟩ := run.owed queued
    have last : (call.ticket.fail f).packet.isTerminal = true := by
      simp [Ticket.fail, Ticket.reply]
    exact orderly.released asked (refused ▸ List.mem_singleton_self _) last _
      (Multiset.mem_of_le (m.heldAt_le _) held)

/-- An unstarted call stays so, unless an instance that is not closed begins it. -/
theorem Unstarted.shift {j : Instance σ} (h : Unstarted es m i call)
    (run : Run (init registry) es m) (step : m.move? l = some k)
    (found : Table.find? m.instances id = some i) (queued : .queued id call ∈ es)
    (shift : Shift m l k id i (m.effects l) j) :
    Unstarted (es ++ m.occurrences l k) k j call ∨
      m.isClosed i = false ∧ ∃ method, j.phase = .begun call method := by
  have orderly := run.orderly
  have silent : ∀ id (other : MethodCall) method, .ran id other method ∈ es ++ m.occurrences l k →
      other.ticket.serial ≠ call.ticket.serial := by
    intro number other method ran
    rcases List.mem_append.1 ran with old | new
    · exact h.silent number other method old
    · have change := move_change step
      obtain ⟨x, there, phase⟩ := effects_ran change ((mem_occurrences change rfl).1 new)
      exact h.other_begun run queued found there phase
  rcases h.stands with ⟨waits, unanswered⟩ | ⟨f, refused⟩
  · have held : call.ticket ∈ m.heldAt (.instance id) := by
      rw [heldAt_instance found]
      exact Instance.held_of_waiting waits
    have quiet (other : l.holder? ≠ some (.instance id)) :
        k.repliesTo call.ticket.serial = [] :=
      (repliesTo_of_other orderly held other step).trans unanswered
    cases shift with
    | rest others untouched => exact .inl ⟨silent, .inl ⟨waits, quiet others⟩⟩
    | mark asks named effects => exact .inl ⟨silent, .inl ⟨waits, quiet (by simp [asks])⟩⟩
    | queue asks named accepts serial replies effects =>
      refine .inl ⟨silent, .inl ⟨?_, quiet (by simp [asks])⟩⟩
      rw [Instance.waiting_queue]
      exact List.mem_append_left _ waits
    | @work _ rs moves worked replies effects =>
      have apart {t u : Ticket} (both : {t} + {u} ≤ i.held) : t.serial ≠ u.serial :=
        orderly.sound.apart (both.trans (heldAt_instance found ▸ m.heldAt_le (.instance id)))
      have answers : k.repliesTo call.ticket.serial =
          Ledger.repliesTo rs call.ticket.serial := by
        rw [repliesTo, replies, Ledger.repliesTo_append]
        exact (congrArg (· ++ _) unanswered).trans (List.nil_append _)
      rcases worked.waiting apart waits with ⟨still, others⟩ | ⟨f, rfl⟩ | begun
      · refine .inl ⟨silent, .inl ⟨still, ?_⟩⟩
        rw [answers, Ledger.repliesTo_eq_nil others]
      · refine .inl ⟨silent, .inr ⟨f, ?_⟩⟩
        rw [answers]
        exact Ledger.repliesTo_eq_self (by simp [Ticket.fail, Ticket.reply])
      · exact .inr begun
  · obtain ⟨origin, target, packet, asked⟩ := run.owed queued
    have last : (call.ticket.fail f).packet.isTerminal = true := by
      simp [Ticket.fail, Ticket.reply]
    have sent : call.ticket.fail f ∈ m.repliesTo call.ticket.serial := by
      rw [refused]
      exact List.mem_singleton_self _
    have same := repliesTo_of_terminal orderly asked sent last step
    exact .inl ⟨silent, .inr ⟨f, same.trans refused⟩⟩

/-- Of every call that was queued on an instance, the body was started or never ran. -/
theorem Run.stage (run : Run (init registry) es m) (found : Table.find? m.instances id = some i)
    (queued : .queued id call ∈ es) : Started es id i call ∨ Unstarted es m i call := by
  revert call
  refine Run.instance_induction (P := fun es m id i => ∀ {call : MethodCall},
    .queued id call ∈ es → Started es id i call ∨ Unstarted es m i call) ?_ ?_ ?_ run found
  · intro es n k l id name component before step absent effects call queued
    rcases List.mem_append.1 queued with old | new
    · obtain ⟨x, there⟩ := before.known old rfl
      rw [absent] at there
      cases there
    · rw [mem_occurrences (move_change step) rfl, effects] at new
      simp at new
  · intro es n k l id i j before step there ih shift call queued
    rcases List.mem_append.1 queued with old | new
    · rcases ih old with started | unstarted
      · exact .inl (started.shift step shift)
      · rcases unstarted.shift before step there old shift with still | ⟨-, method, begun⟩
        · exact .inr still
        · exact .inl ⟨method, .inr begun⟩
    · have change := move_change step
      rw [mem_occurrences change rfl] at new
      cases shift with
      | rest others silent => exact absurd rfl (silent _ new)
      | mark asks named effects => simp [effects] at new
      | work moves worked replies effects => simp [effects, Instance.mem_effects] at new
      | @queue _ made asks named accepts number same effects =>
        rw [effects] at new
        cases List.mem_singleton.1 new
        refine .inr ⟨fun other run method ran equal => ?_, .inl ⟨?_, ?_⟩⟩
        · rcases List.mem_append.1 ran with earlier | now
          · have := before.ran_lt earlier
            omega
          · rw [mem_occurrences change rfl, effects] at now
            simp at now
        · simp [Instance.waiting_queue]
        · rw [repliesTo, same, number]
          apply Ledger.repliesTo_eq_nil
          intro r sent equal
          have below := before.orderly.sound.replied r sent
          have count := before.orderly.number
          simp only [ledger] at below
          omega
  · intro es n id i other ih call queued
    exact (ih queued).imp_right fun unstarted => ⟨unstarted.silent, unstarted.stands⟩

/-! ## The end of an instance -/

/-- The teardown hook of an instance ran when it has ended. -/
theorem Run.tornDown_iff (run : Run (init registry) es m)
    (found : Table.find? m.instances id = some i) : TornDown es id ↔ i.phase.hasEnded := by
  refine Run.instance_induction (P := fun es _ id i => TornDown es id ↔ i.phase.hasEnded)
    ?_ ?_ ?_ run found
  · intro es n k l id name component before step absent effects
    have never : ¬ TornDown es id := by
      rintro ⟨component, old⟩
      obtain ⟨x, there⟩ := before.known old rfl
      rw [absent] at there
      cases there
    have none : ¬ TornDown [Occurrence.defined id name component] id := by simp [TornDown]
    rw [tornDown_append, tornDown_occurrences (move_change step), effects]
    simp [never, none, newborn, Phase.hasEnded]
  · intro es n k l id i j before step there ih shift
    rw [tornDown_append, tornDown_occurrences (move_change step), ih]
    cases shift with
    | rest others silent =>
      have quiet : ¬ TornDown (n.effects l) id := by
        rintro ⟨component, member⟩
        exact silent _ member rfl
      simp [quiet]
    | mark asks named effects => simp [effects, TornDown]
    | queue asks named accepts serial replies effects => simp [effects, TornDown]
    | work moves worked replies effects =>
      rw [effects, worked.toreDown_iff id, worked.running]
      simp
  · intro es n id i other ih
    exact ih

/-- The log is what the teardown hooks that ran wrote, in order. -/
theorem Run.log (run : Run (init registry) es m) : m.log = es.flatMap Occurrence.lines := by
  induction run with
  | refl => rfl
  | move l before step ih =>
    rw [log_of_move step, ih, List.flatMap_append, lines_occurrences (move_change step)]
  | exchange other before ih => exact ih

/-- What happens in a run from the start, seen with what happened before it. -/
theorem Run.always {P : List (Occurrence σ) → Occurrence σ → Prop} {start : Machine σ}
    (moves : ∀ {es : List (Occurrence σ)} {n k : Machine σ} {l : Move}, Run start es n →
      n.move? l = some k → ∀ before o after, n.occurrences l k = before ++ o :: after →
      P (es ++ before) o)
    (run : Run start es m) {before after : List (Occurrence σ)} {o : Occurrence σ}
    (split : es = before ++ o :: after) : P before o := by
  induction run generalizing after with
  | refl => simp at split
  | @move es n k l earlier step ih =>
    rcases List.append_eq_append_iff.1 split with ⟨more, rfl, rest⟩ | ⟨more, rfl, rest⟩
    · exact moves earlier step more o after rest
    · cases more with
      | nil =>
        have here : n.occurrences l k = [] ++ o :: after := rest.symm
        simpa using moves earlier step [] o after here
      | cons first more =>
        obtain ⟨rfl, -⟩ := List.cons.inj rest
        exact ih rfl
  | exchange other earlier ih => exact ih split

/-- Nothing happens to an instance behind its teardown. -/
theorem Run.toreDown_last (run : Run (init registry) es m) {before after : List (Occurrence σ)}
    {component : Component σ} (split : es = before ++ .toreDown id component :: after) :
    ¬ TornDown before id ∧ ∀ o ∈ after, o.instance? ≠ some id := by
  have fresh {before after : List (Occurrence σ)} {o : Occurrence σ}
      (split : es = before ++ o :: after) (touches : o.instance? = some id) :
      ¬ TornDown before id := by
    revert touches
    refine Run.always (P := fun before o => o.instance? = some id → ¬ TornDown before id)
      ?_ run split
    intro es n k l earlier step before o after here touches torn
    have change := move_change step
    have member : o ∈ n.effects l := by
      rw [← mem_occurrences change touches, here]
      simp
    rcases (tornDown_append es before id).1 torn with ⟨old, torn⟩ | ⟨component, now⟩
    · obtain ⟨i, found⟩ := earlier.known torn rfl
      have ended := (earlier.tornDown_iff found).1 ⟨old, torn⟩
      obtain ⟨j, there, shift⟩ := change.shift earlier.orderly.tidy found
      cases shift with
      | rest others silent => exact silent o member touches
      | mark asks named effects => simp [effects] at member
      | queue asks named accepts serial replies effects =>
        exact Phase.not_hasEnded_of_accepts accepts ended
      | work moves worked replies effects =>
        rw [worked.running] at ended
        cases ended
    · -- one move lets at most one thing happen to components
      have two := congrArg (List.filter fun o => o.instance?.isSome) here
      rw [filter_occurrences change, List.filter_append, List.filter_cons_of_pos (by simp [touches])]
        at two
      have first : .toreDown id component ∈ before.filter fun o => o.instance?.isSome := by
        simp [now, Occurrence.instance?]
      have some := List.length_pos_of_mem first
      have one := change.length_le_one
      rw [two, List.length_append, List.length_cons] at one
      omega
  refine ⟨fresh split rfl, fun o member touches => ?_⟩
  obtain ⟨left, right, rfl⟩ := List.append_of_mem member
  have behind : es = (before ++ .toreDown id component :: left) ++ o :: right := by
    rw [split]
    simp
  exact fresh behind touches ⟨component, by simp⟩

end Patchbay.Machine
