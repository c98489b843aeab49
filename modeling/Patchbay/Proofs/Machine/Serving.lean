import Patchbay.Proofs.Machine.Lines

/-!
# Serving calls

An instance serves its calls one by one and in the order in which they were taken. The state that a
body finds is the one that the factory made, changed by the bodies of the calls before it and by
nothing else. A call whose method is unknown, that is cancelled, or whose instance is closed before
it was begun never runs, so it changes nothing.
-/

namespace Patchbay

variable {σ : Type}

@[simp] theorem Component.ran_methods (c : Component σ) (call : MethodCall) (method : Method σ) :
    (c.ran call method).methods = c.methods := rfl

@[simp] theorem Component.ranAll_methods (c : Component σ) (runs : List (MethodCall × Method σ)) :
    (c.ranAll runs).methods = c.methods := by
  induction runs generalizing c with
  | nil => rfl
  | cons run rest ih => exact (ih (c.ran run.1 run.2)).trans (c.ran_methods run.1 run.2)

namespace Machine

variable {registry : Registry σ} {m k n : Machine σ} {l : Move}
  {es past later : List (Occurrence σ)} {id now : Nat} {i j : Instance σ} {call : MethodCall}
  {method : Method σ}

/-! ## Beginning a call -/

/-- A call that its instance does not begin: its method is unknown, its instance is closed, or it is
cancelled. -/
def Barred (m : Machine σ) (i : Instance σ) (call : MethodCall) : Prop :=
  Table.find? i.component.methods call.method = none ∨ m.isClosed i = true ∨
    m.isCancelled call.ticket = true

/-- A call is begun with the method of its name, and only if nothing bars it. -/
theorem stepInstance_begins (step : m.stepInstance? id now = some k)
    (found : Table.find? m.instances id = some i) (there : Table.find? k.instances id = some j)
    (begun : j.phase = .begun call method) :
    Table.find? i.component.methods call.method = some method ∧ ¬ Barred m i call := by
  have taken : i.phase = .taken call := by
    cases stepInstance_move step with
    | @work x next rs notices here worked =>
      cases here.symm.trans found
      rw [Table.find?_put, if_pos rfl] at there
      cases there
      cases worked with
      | start phase isOpen =>
        cases begun
        exact phase
      | _ => cases begun
  simp only [stepInstance?, found, Option.bind_eq_bind, Option.bind_some, taken,
    Option.some.injEq] at step
  subst step
  have ended {t : Ticket} {rs : List Reply} :
      Table.find? (m.endCall id i t rs).instances id = some { i with phase := .answered t.key } := by
    rw [endCall, setInstance, Table.find?_put, if_pos rfl]
  unfold invoke at there
  dsimp only at there
  split at there
  · cases ended.symm.trans there
    cases begun
  · next f known =>
    split at there
    · cases ended.symm.trans there
      cases begun
    · next goes =>
      simp only [Bool.or_eq_true, not_or] at goes
      rw [setInstance, Table.find?_put, if_pos rfl] at there
      cases there
      cases begun
      refine ⟨known, ?_⟩
      rintro (unknown | closed | cancelled)
      · rw [known] at unknown
        cases unknown
      · exact goes.1 closed
      · exact goes.2 cancelled

theorem instance_of_holder (moves : l.holder? = some (.instance id)) :
    ∃ now, l = .instance id now := by
  cases l with
  | «instance» other now =>
    cases moves
    exact ⟨now, rfl⟩
  | _ => cases moves

theorem Shift.begins (shift : Shift m l k id i es j) (step : m.move? l = some k)
    (found : Table.find? m.instances id = some i) (there : Table.find? k.instances id = some j)
    (begun : j.phase = .begun call method) :
    i.phase = .begun call method ∨
      Table.find? i.component.methods call.method = some method ∧ ¬ Barred m i call := by
  cases shift with
  | rest | mark | queue => exact .inl begun
  | work moves worked replies effects =>
    obtain ⟨now, rfl⟩ := instance_of_holder moves
    exact .inr (stepInstance_begins step found there begun)

/-- The component changes by a body only. -/
theorem Shift.component (shift : Shift m l k id i es j) :
    j.component = i.component ∨ ∃ call method now, l = .instance id now ∧
      i.phase = .begun call method ∧ j.component = i.component.ran call method := by
  cases shift with
  | rest | mark | queue => exact .inl rfl
  | work moves worked replies effects =>
    obtain ⟨now, rfl⟩ := instance_of_holder moves
    cases worked with
    | answer phase last => exact .inr ⟨_, _, now, rfl, phase, rfl⟩
    | stream s now' phase => exact .inr ⟨_, _, now, rfl, phase, rfl⟩
    | _ => exact .inl rfl

theorem Shift.methods (shift : Shift m l k id i es j) :
    j.component.methods = i.component.methods := by
  rcases shift.component with same | ⟨call, method, now, -, -, ran⟩
  · rw [same]
  · rw [ran, Component.ran_methods]

/-! ## Barred calls -/

/-- A machine goes on stopping, and what was cancelled stays so. -/
theorem flags_of_move (step : m.move? l = some k) :
    (m.stopping = true → k.stopping = true) ∧ m.tripped ⊆ k.tripped := by
  cases l with
  | trip key =>
    obtain ⟨-, rfl⟩ := trip_of_move step
    exact ⟨fun stopping => stopping, List.subset_append_right _ _⟩
  | request r =>
    obtain rfl := handle_of_request step
    cases r with
    | cancel origin tx =>
      simp only [handle, cancel]
      split
      · exact ⟨fun stopping => stopping, List.subset_cons_self _ _⟩
      · exact ⟨fun stopping => stopping, List.Subset.refl _⟩
    | execute origin target packet =>
      have moved := m.handle_moved (.execute origin target packet)
      generalize m.handle (.execute origin target packet) = k at moved ⊢
      generalize asked : [Request.execute origin target packet] = requests at moved
      cases moved with
      | execute move => cases move <;> exact ⟨fun stopping => stopping, List.Subset.refl _⟩
      | cancel => cases asked
      | _ => cases asked
  | stop =>
    cases step
    exact ⟨fun _ => rfl, List.Subset.refl _⟩
  | halt =>
    obtain ⟨-, rfl⟩ := halt_of_move step
    exact ⟨fun stopping => stopping, List.Subset.refl _⟩
  | notice =>
    obtain ⟨_, _, -, rfl⟩ := notice_of_move step
    exact ⟨fun stopping => stopping, List.Subset.refl _⟩
  | task id now =>
    cases stepTask_move step <;> exact ⟨fun stopping => stopping, List.Subset.refl _⟩
  | «instance» id now =>
    cases stepInstance_move step
    exact ⟨fun stopping => stopping, List.Subset.refl _⟩
  | waiter id =>
    cases stepWaiter_move step
    exact ⟨fun stopping => stopping, List.Subset.refl _⟩

theorem Shift.deleted (shift : Shift m l k id i es j) (deleted : i.deleted = true) :
    j.deleted = true := by
  cases shift with
  | rest | queue => exact deleted
  | mark => rfl
  | work moves worked => exact worked.deleted.trans deleted

theorem Barred.shift (barred : Barred m i call) (shift : Shift m l k id i es j)
    (step : m.move? l = some k) : Barred k j call := by
  obtain ⟨stopping, tripped⟩ := flags_of_move step
  simp only [Barred, isClosed, isCancelled, Bool.or_eq_true, List.contains_iff_mem] at barred ⊢
  rcases barred with unknown | (stops | deleted) | stops | cancelled
  · rw [shift.methods]
    exact .inl unknown
  · exact .inr (.inl (.inl (stopping stops)))
  · exact .inr (.inl (.inr (shift.deleted deleted)))
  · exact .inr (.inr (.inl (stopping stops)))
  · exact .inr (.inr (.inr (tripped cancelled)))

/-- A call that is barred before it was begun never runs. -/
theorem Run.of_barred (whole : Run (init registry) past m)
    (found : Table.find? m.instances id = some i) (queued : .queued id call ∈ past)
    (fresh : ¬ Started past id i call) (barred : Barred m i call) (run : Run m later n) :
    ∃ j, Table.find? n.instances id = some j ∧ Barred n j call ∧
      Unstarted (past ++ later) n j call := by
  induction run with
  | refl =>
    rw [List.append_nil]
    exact ⟨i, found, barred, (whole.stage found queued).resolve_left fresh⟩
  | @move es n k l before step ih =>
    obtain ⟨x, there, still, unstarted⟩ := ih
    have prior := whole.trans before
    have known : .queued id call ∈ past ++ es := List.mem_append_left _ queued
    obtain ⟨y, here, shift⟩ := (move_change step).shift prior.orderly.tidy there
    refine ⟨y, here, still.shift shift step, ?_⟩
    rw [← List.append_assoc]
    refine (unstarted.shift prior step there known shift).resolve_right ?_
    rintro ⟨-, method, begins⟩
    rcases shift.begins step there here begins with begun | ⟨-, free⟩
    · exact unstarted.other_begun prior known there there begun rfl
    · exact free still
  | exchange other before ih =>
    obtain ⟨x, there, still, unstarted⟩ := ih
    exact ⟨x, there, still, unstarted.silent, unstarted.stands⟩

/-- An instance that is not closed takes calls. -/
theorem Run.accepts (run : Run (init registry) es m) (found : Table.find? m.instances id = some i)
    (isOpen : m.isClosed i = false) : i.phase.accepts = true := by
  have closing : i.phase.accepts = false → m.isClosed i = true := by
    refine Run.instance_induction (P := fun _ m _ i => i.phase.accepts = false →
      m.isClosed i = true) ?_ ?_ ?_ run found
    · intro es n k l id name component before step absent effects refuses
      cases refuses
    · intro es n k l id i j before step there ih shift refuses
      have stays (closed : n.isClosed i = true) : k.isClosed j = true := by
        simp only [isClosed, Bool.or_eq_true] at closed ⊢
        exact closed.imp (flags_of_move step).1 shift.deleted
      cases shift with
      | rest | mark | queue => exact stays (ih refuses)
      | work moves worked =>
        cases worked with
        | close phase closed => exact stays closed
        | drain phase | reopen phase | tearDown phase => exact stays (ih (by rw [phase]; rfl))
        | _ => cases refuses
    · intro es n id i other ih
      exact ih
  cases accepts : i.phase.accepts with
  | true => rfl
  | false =>
    rw [closing accepts] at isOpen
    cases isOpen

/-! ## Bodies -/

/-- An instance is about to run the method that its component has under the name. -/
theorem Run.begun_method (run : Run (init registry) es m)
    (found : Table.find? m.instances id = some i) (begun : i.phase = .begun call method) :
    Table.find? i.component.methods call.method = some method := by
  refine Run.instance_induction (P := fun _ m id i => Table.find? m.instances id = some i →
    ∀ {call : MethodCall} {method : Method σ}, i.phase = .begun call method →
      Table.find? i.component.methods call.method = some method) ?_ ?_ ?_ run found found begun
  · intro es n k l id name component before step absent effects found call method begun
    cases begun
  · intro es n k l id i j before step there ih shift found call method begun
    rw [shift.methods]
    rcases shift.begins step there found begun with same | ⟨known, -⟩
    · exact ih there same
    · exact known
  · intro es n id i other ih
    exact ih

/-- A body runs by a move of its own, on the component as it is then. -/
theorem Run.body (run : Run (init registry) es m) {before after : List (Occurrence σ)}
    (split : es = before ++ .ran id call method :: after) :
    ∃ n x now, Run (init registry) before n ∧ Table.find? n.instances id = some x ∧
      x.phase = .begun call method ∧
      n.move? (.instance id now) = some (n.perform id x call method now) := by
  generalize happens : Occurrence.ran id call method = o at split
  revert happens
  refine Run.always (P := fun before o => Occurrence.ran id call method = o →
    ∃ n x now, Run (init registry) before n ∧ Table.find? n.instances id = some x ∧
      x.phase = .begun call method ∧
      n.move? (.instance id now) = some (n.perform id x call method now)) ?_ run split
  rintro es n k l earlier step before o after here rfl
  have change := move_change step
  have ran : .ran id call method ∈ n.effects l := by
    rw [← mem_occurrences change rfl, here]
    simp
  obtain ⟨x, found, begun⟩ := effects_ran change ran
  obtain ⟨now, rfl⟩ : ∃ now, l = .instance id now := by
    obtain ⟨y, there, shift⟩ := change.shift earlier.orderly.tidy found
    cases shift with
    | rest others silent => exact absurd rfl (silent _ ran)
    | mark asks named effects => simp [effects] at ran
    | queue asks named accepts serial replies effects => simp [effects] at ran
    | work moves worked replies effects => exact instance_of_holder moves
  -- the body is the first that happens in its move
  have first : before = [] := by
    have effects : n.effects (.instance id now) = [.ran id call method] := by
      simp [Machine.effects, found, Instance.effects, begun]
    rw [occurrences, effects] at here
    cases before with
    | nil => rfl
    | cons o rest =>
      simp only [Move.asked, List.map_nil, List.nil_append, List.cons_append] at here
      obtain ⟨-, later⟩ := List.cons.inj here
      have sent : .ran id call method ∈
          (k.replies.drop n.replies.length).map (Occurrence.sent (σ := σ)) := by
        rw [later]
        simp
      obtain ⟨r, -, different⟩ := List.mem_map.1 sent
      cases different
  subst first
  rw [List.append_nil]
  refine ⟨n, x, now, earlier, found, begun, ?_⟩
  simp [move?, stepInstance?, found, begun]

/-! ## The component of an instance -/

/-- One move touches one instance at most, once. -/
theorem occurrences_touch_once (change : Change m l (m.effects l) k)
    {before after : List (Occurrence σ)} {o : Occurrence σ}
    (here : m.occurrences l k = before ++ o :: after) (touches : o.instance? = some id) :
    ∀ p ∈ before, p.instance? = none := by
  have one := change.length_le_one
  rw [← filter_occurrences change, here, List.filter_append,
    List.filter_cons_of_pos (by simp [touches]), List.length_append, List.length_cons] at one
  intro p member
  by_contra some
  have counted : p ∈ before.filter fun o => o.instance?.isSome :=
    List.mem_filter.2 ⟨member, Option.isSome_iff_ne_none.2 some⟩
  have := List.length_pos_of_mem counted
  omega

/-- A component is defined by a request, whose number the instance gets, and made by the factory of
its type. -/
theorem effects_defined {name : String} {component : Component σ}
    (new : .defined id name component ∈ m.effects l) :
    id = m.serial ∧ ∃ type factory args, m.registry.factory? type = some factory ∧
      factory args = .ok component := by
  cases l with
  | request r =>
    cases r with
    | cancel => simp [effects, requestEffects] at new
    | execute origin target packet =>
      cases target with
      | componentType type =>
        simp only [effects, requestEffects] at new
        split at new
        · next name' component' made =>
          obtain ⟨rfl, rfl, rfl⟩ := Occurrence.defined.inj (List.mem_singleton.1 new)
          refine ⟨rfl, type, ?_⟩
          unfold prepare at made
          cases named : nameToDefine packet.body with
          | error f => simp [named, bind, Except.bind] at made
          | ok title =>
            simp only [named, bind, Except.bind] at made
            split at made
            · cases made
            · split at made
              · cases made
              · next factory known =>
                split at made
                · cases made
                · next built result =>
                  cases made
                  exact ⟨factory, _, known, result⟩
        · cases new
      | method name method =>
        simp only [effects, requestEffects] at new
        split at new
        · split at new <;> simp at new
        · cases new
      | function | component => simp [effects, requestEffects] at new
  | «instance» other now =>
    simp only [effects] at new
    cases there : Table.find? m.instances other with
    | none => simp [there] at new
    | some x => simp [there, Instance.mem_effects] at new
  | _ => cases new

/-- A component is defined when nothing has happened to its instance yet, by a factory. -/
theorem Run.definition (run : Run (init registry) es m) {name : String} {component : Component σ}
    {before after : List (Occurrence σ)} (split : es = before ++ .defined id name component :: after) :
    (∀ o ∈ before, o.instance? ≠ some id) ∧
      ∃ past n rest type factory args, Run (init registry) past n ∧ before = past ++ rest ∧
        n.registry.factory? type = some factory ∧ factory args = .ok component := by
  generalize happens : Occurrence.defined id name component = o at split
  revert happens
  refine Run.always (P := fun before o => Occurrence.defined id name component = o →
    (∀ o ∈ before, o.instance? ≠ some id) ∧
      ∃ past n rest type factory args, Run (init registry) past n ∧ before = past ++ rest ∧
        n.registry.factory? type = some factory ∧ factory args = .ok component) ?_ run split
  rintro es n k l earlier step before o after here rfl
  have change := move_change step
  have defined : .defined id name component ∈ n.effects l := by
    rw [← mem_occurrences change rfl, here]
    simp
  obtain ⟨rfl, type, factory, args, known, made⟩ := effects_defined defined
  refine ⟨fun o member touches => ?_, es, n, before, type, factory, args, earlier, rfl, known, made⟩
  rcases List.mem_append.1 member with old | new
  · obtain ⟨x, there⟩ := earlier.known old touches
    have below := earlier.orderly.tidy.instances.below _
      (List.mem_map_of_mem (Table.mem_of_find? there))
    exact Nat.lt_irrefl _ below
  · rw [occurrences_touch_once change here rfl o new] at touches
    cases touches

theorem Run.defined (run : Run (init registry) es m)
    (found : Table.find? m.instances id = some i) :
    ∃ component, .defined id i.name component ∈ es := by
  refine Run.instance_induction (P := fun es _ id i => ∃ component, .defined id i.name component ∈ es)
    ?_ ?_ ?_ run found
  · intro es n k l id name component before step absent effects
    refine ⟨component, List.mem_append_right _ ?_⟩
    rw [mem_occurrences (move_change step) rfl, effects]
    exact List.mem_singleton_self _
  · intro es n k l id i j before step there ih shift
    obtain ⟨component, defined⟩ := ih
    exact ⟨component, shift.name ▸ List.mem_append_left _ defined⟩
  · intro es n id i other ih
    exact ih

/-- Whatever else happens to an instance happens behind its definition. -/
theorem Run.defined_before (run : Run (init registry) es m) {name : String}
    {component : Component σ} (defined : .defined id name component ∈ es)
    {before after : List (Occurrence σ)} (split : es = before ++ .ran id call method :: after) :
    .defined id name component ∈ before := by
  rw [split] at defined
  rcases List.mem_append.1 defined with earlier | here
  · exact earlier
  · rcases List.mem_cons.1 here with same | later
    · cases same
    · obtain ⟨left, right, rfl⟩ := List.append_of_mem later
      have behind : es = (before ++ .ran id call method :: left) ++
          .defined id name component :: right := by
        rw [split]
        simp
      exact absurd rfl ((run.definition behind).1 (.ran id call method) (by simp))

/-! ## One after the other -/

/-- When an instance is about to run a body, the calls before that one have their last replies, and
to the others nothing was said yet. -/
theorem Run.alone (run : Run (init registry) es m) (found : Table.find? m.instances id = some i)
    (begun : i.phase = .begun call method) {other : MethodCall} (queued : other ∈ callsOn id es) :
    (other.ticket.serial < call.ticket.serial →
        ∃ s ∈ m.repliesTo other.ticket.serial, s.packet.isTerminal = true) ∧
      (call.ticket.serial ≤ other.ticket.serial → m.repliesTo other.ticket.serial = []) := by
  obtain ⟨front, line⟩ := run.inLine found
  have ahead : call ∈ front := by
    apply line.started.subset
    simp [startedOn, Instance.begun, begun]
  have known : call ∈ callsOn id es := line.line ▸ List.mem_append_left _ ahead
  constructor
  · intro earlier
    refine run.answered_before found queued known earlier fun waits => ?_
    exact Nat.lt_irrefl _ (run.front_lt_waiting line ahead waits)
  · intro later
    rcases List.mem_append.1 (line.line ▸ queued) with left | waits
    · have before := run.front_le_serving line left (t := call.ticket) (by rw [begun]; rfl)
      have same : other.ticket.serial = call.ticket.serial := by omega
      rw [same]
      exact run.silent_begun found begun
    · exact run.silent_waiting found waits

/-! ## Main result -/

/-- How instance number `id` of the machine `m`, which is `i` now, has served the calls on it, when
`es` is what happened since the start and `component` is what was defined under that number. -/
structure ServedInOrder (registry : Registry σ) (es : List (Occurrence σ)) (m : Machine σ) (id : Nat)
    (i : Instance σ) (component : Component σ) : Prop where
  /-- The component was made by the factory of its type, before anything happened to it. -/
  defined : ∃ before after, es = before ++ .defined id i.name component :: after ∧
    (∀ o ∈ before, o.instance? ≠ some id) ∧
    ∃ past n rest type factory args, Run (init registry) past n ∧ before = past ++ rest ∧
      n.registry.factory? type = some factory ∧ factory args = .ok component
  /-- The calls on it are the requests of their numbers, in the order in which these were taken. -/
  line : (callsOn id es).Pairwise (fun a b => a.ticket.serial < b.ticket.serial) ∧
    ∀ call ∈ callsOn id es, ∃ origin packet,
      (requestsIn es)[call.ticket.serial]? =
        some (.execute origin (.method i.name call.method) packet) ∧
      call = ⟨.issue call.ticket.serial origin (.method i.name call.method) packet, call.method,
        packet.args⟩
  /-- Bodies run for some of the calls, in that order and once for each. -/
  order : ((bodies id es).map Prod.fst).Sublist (callsOn id es)
  /-- What the bodies made of the component is what it is now. -/
  state : i.component = component.ranAll (bodies id es)
  /-- A body is that of the called method and finds what the bodies before it left. It runs alone: the
  calls before it have their last replies, and nothing was said to it or to a later one. -/
  body : ∀ before call method after, es = before ++ .ran id call method :: after →
    Table.find? component.methods call.method = some method ∧
    (∃ n x now, Run (init registry) before n ∧ Table.find? n.instances id = some x ∧
      x.component = component.ranAll (bodies id before) ∧
      n.move? (.instance id now) = some (n.perform id x call method now)) ∧
    ∀ other ∈ callsOn id before,
      (other.ticket.serial < call.ticket.serial → ∃ s, .sent s ∈ before ∧
        s.serial = other.ticket.serial ∧ s.packet.isTerminal = true) ∧
      (call.ticket.serial ≤ other.ticket.serial → ∀ s, .sent s ∈ before →
        s.serial ≠ other.ticket.serial)
  /-- No move but that of a body changes the component. -/
  still : ∀ l k, m.move? l = some k → ∃ j, Table.find? k.instances id = some j ∧
    (j.component = i.component ∨ ∃ call method now, l = .instance id now ∧
      i.phase = .begun call method ∧ j.component = i.component.ran call method)
  /-- A call that is barred before it is begun never runs: it waits, or a failure is all it gets. -/
  barred : ∀ call ∈ callsOn id es, ¬ Started es id i call → Barred m i call →
    ∀ later n, Run m later n → ∃ j, Table.find? n.instances id = some j ∧
      (∀ method, .ran id call method ∉ es ++ later) ∧ Unstarted (es ++ later) n j call
  /-- The replies to a call are behind all replies to the calls before it. -/
  replies : m.replies.Pairwise fun r s => ∀ a ∈ callsOn id es, ∀ b ∈ callsOn id es,
    a.ticket.serial = r.serial → b.ticket.serial = s.serial → r.serial ≤ s.serial

/-- In every run and at every moment, every instance has served its calls one by one and in order. -/
theorem calls_served_in_order (run : Run (init registry) es m)
    (found : Table.find? m.instances id = some i) :
    ∃ component, ServedInOrder registry es m id i component := by
  obtain ⟨component, defined⟩ := run.defined found
  obtain ⟨front, line⟩ := run.inLine found
  refine ⟨component, ?_⟩
  constructor
  case defined =>
    obtain ⟨before, after, split⟩ := List.append_of_mem defined
    exact ⟨before, after, split, run.definition split⟩
  case line => exact ⟨(run.line_sorted id).1, fun call member => run.line_taken found member⟩
  case order =>
    have all : (startedOn es id i).Sublist (callsOn id es) := by
      rw [line.line]
      exact line.started.trans (List.sublist_append_left front i.waiting)
    exact (List.sublist_append_left _ i.begun).trans all
  case state => exact (run.state found defined).2
  case body =>
    intro before call method after split
    obtain ⟨n, x, now, earlier, there, begun, step⟩ := run.body split
    have state := (earlier.state there (run.defined_before defined split)).2
    have known := earlier.begun_method there begun
    rw [state, Component.ranAll_methods] at known
    refine ⟨known, ⟨n, x, now, earlier, there, state, step⟩, fun other queued => ?_⟩
    obtain ⟨answered, silent⟩ := earlier.alone there begun queued
    refine ⟨fun prior => ?_, fun behind s sent same => ?_⟩
    · obtain ⟨s, replied, terminal⟩ := answered prior
      obtain ⟨sent, number⟩ := List.mem_filter.1 replied
      exact ⟨s, (earlier.sent_iff s).2 sent, by simpa using number, terminal⟩
    · have replied : s ∈ n.repliesTo other.ticket.serial :=
        List.mem_filter.2 ⟨(earlier.sent_iff s).1 sent, by simp [same]⟩
      rw [silent behind] at replied
      cases replied
  case still =>
    intro l k step
    obtain ⟨j, there, shift⟩ := (move_change step).shift run.orderly.tidy found
    exact ⟨j, there, shift.component⟩
  case barred =>
    intro call queued fresh barred later n since
    obtain ⟨j, there, -, unstarted⟩ :=
      Run.of_barred run found (mem_callsOn.1 queued) fresh barred since
    exact ⟨j, there, fun method ran => unstarted.silent id call method ran rfl, unstarted⟩
  case replies => exact run.replies_in_line id

/-- A registry with one component type: a number, which one method counts up, and another doubles and
then streams twice. -/
def numberRegistry : Registry Nat :=
  ⟨[], [("number", ⟨"demo", fun _ => .ok ⟨1,
    [("add", .instant fun n _ => (.ok (.int (.ofNat n)), n + 1)),
      ("double", .streaming fun n _ => (.ok (.ofList [.int (.ofNat n), .int (.ofNat n)]), 2 * n))],
    fun _ => []⟩⟩)]⟩

/-- Calls of two clients: one of them has no method, one is cancelled while it waits, and one is left
in the mailbox by the delete. -/
def servingMoves : List Move :=
  [.request (.execute 1 (.componentType "number") (.defineComponent "a" "number" "x" .null)),
    .request (.execute 1 (.method "x" "add") (.callMethod "b" "x" "add" .null)),
    .request (.execute 2 (.method "x" "double") (.callMethod "c" "x" "double" .null)),
    .request (.execute 2 (.method "x" "none") (.callMethod "d" "x" "none" .null)),
    .request (.execute 1 (.method "x" "add") (.callMethod "e" "x" "add" .null)),
    .request (.cancel 1 "e"),
    .request (.execute 2 (.method "x" "add") (.callMethod "f" "x" "add" .null))]
  ++ List.replicate 24 (.instance 0 0)
  ++ [.request (.execute 1 (.method "x" "double") (.callMethod "g" "x" "double" .null)),
    .request (.execute 2 (.component "x") (.deleteComponent "h" "x"))]
  ++ List.replicate 4 (.instance 0 0) ++ [.waiter 8]

theorem calls_served_in_order_number :
    ∃ (es : List (Occurrence Nat)) (m : Machine Nat) (i : Instance Nat) (component : Component Nat),
      Run (init numberRegistry) es m ∧ Table.find? m.instances 0 = some i ∧
      i.component.state = 5 ∧ m.replies.map Reply.serial = [0, 5, 1, 2, 2, 3, 4, 6, 7, 8] ∧
      ServedInOrder numberRegistry es m 0 i component := by
  obtain ⟨m, i, made, found, state, serials⟩ : ∃ (m : Machine Nat) (i : Instance Nat),
      (init numberRegistry).after? servingMoves = some m ∧ Table.find? m.instances 0 = some i ∧
      i.component.state = 5 ∧ m.replies.map Reply.serial = [0, 5, 1, 2, 2, 3, 4, 6, 7, 8] :=
    ⟨_, _, rfl, rfl, rfl, rfl⟩
  obtain ⟨es, run⟩ := run_of_after? made
  obtain ⟨component, served⟩ := calls_served_in_order run found
  exact ⟨es, m, i, component, run, found, state, serials, served⟩

end Machine

end Patchbay
