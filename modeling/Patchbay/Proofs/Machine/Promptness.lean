import Patchbay.Proofs.Machine.Sequential

/-!
# Answers in time

A call on an instance that nobody hinders is answered as soon as the instance has moved often
enough, if the streams of the calls up to it come to an end. How often is known in advance, and as
long as the call is not answered the instance can move, at any time that is late enough.
-/

namespace Patchbay

variable {σ : Type}

/-! ## Effort -/

/-- Streams of a call on a component come to their end after so many elements. -/
def Component.Brief (c : Component σ) (bound : Nat) (call : MethodCall) : Prop :=
  ∀ s, c.Opens call s → ∃ k ≤ bound, s.EndsAt k ∧ ∀ n ≤ k, (s.element? n).isSome

/-- How many moves an instance makes at most until it is between two calls again, when no stream is
longer than the bound. -/
def Phase.effort (bound : Nat) : Phase σ → Nat
  | .taken _ => 2 * bound + 5
  | .begun _ _ => 2 * bound + 4
  | .driving _ d => d.distance bound + 2
  | .answered _ => 1
  | _ => 0

/-- How many moves an instance makes at most until the call with a number is answered. -/
def Instance.effort (bound serial : Nat) (i : Instance σ) : Nat :=
  (2 * bound + 6) * i.mailbox.countP (fun call => call.ticket.serial ≤ serial) +
    i.phase.effort bound

theorem Drive.distance_of_le {d : Drive} {k bound : Nat} (inside : d.position ≤ k)
    (within : k ≤ bound) : d.distance bound = d.distance k + 2 * (bound - k) := by
  unfold distance
  omega

/-- Each move of an instance brings the answer nearer. -/
theorem Instance.Serves.effort_lt {i j : Instance σ} {now bound serial : Nat} {rs : List Reply}
    (serves : i.Serves now rs j)
    (ahead : ∀ call rest, i.phase = .idle → i.mailbox = call :: rest →
      call.ticket.serial ≤ serial)
    (nearer : ∀ t d rs u e, i.phase = .driving t d → d.advance t false now = .more rs u e →
      e.distance bound < d.distance bound) :
    j.effort bound serial < i.effort bound serial := by
  cases serves with
  | take phase queue =>
    have counted := ahead _ _ phase queue
    simp only [effort, phase, queue, Phase.effort, List.countP_cons, counted, decide_true, if_true,
      Nat.mul_add]
    omega
  | unknown phase | start phase | answer phase | refuse phase | resume phase =>
    simp [effort, phase, Phase.effort]
  | stream phase =>
    simp [effort, phase, Phase.effort, Drive.distance, Drive.start]
  | drive phase more =>
    have := nearer _ _ _ _ _ phase more
    simp only [effort, phase, Phase.effort]
    omega
  | finish phase =>
    simp only [effort, phase, Phase.effort]
    omega

namespace Machine

variable {registry : Registry σ} {m k n : Machine σ} {l : Move} {moves : List Move}
  {es later : List (Occurrence σ)} {id now bound : Nat} {i j : Instance σ} {call : MethodCall}
  {name : String} {first : Component σ} {done current before after : List MethodCall}

/-- The streams of some calls, served one after the other, come to their ends. -/
def Brief (first : Component σ) (bound : Nat) (calls : List MethodCall) : Prop :=
  ∀ front call back, calls = front ++ call :: back → (first.serveAll front).Brief bound call

/-- The call that an instance is at is not behind one that is pending. -/
theorem Sequential.up_to (h : Sequential es m id first i done [call])
    (run : Run (init registry) es m) {target : MethodCall}
    (split : callsOn id es = before ++ target :: after)
    (pending : m.Pending target.ticket.serial) :
    ∃ back, before ++ [target] = done ++ call :: back := by
  rw [h.line, List.append_assoc] at split
  rcases split_append split with ⟨rest, served, -⟩ | ⟨rest, rfl, behind⟩
  · exact absurd pending (h.settled run served)
  · cases rest with
    | nil =>
      obtain ⟨rfl, -⟩ := List.cons.inj behind
      exact ⟨[], by simp⟩
    | cons c rest =>
      obtain ⟨rfl, -⟩ := List.cons.inj behind
      exact ⟨rest ++ [target], by simp⟩

/-- A pending call has not been served. -/
theorem Sequential.unserved (h : Sequential es m id first i done current)
    (run : Run (init registry) es m) (member : call ∈ callsOn id es)
    (pending : m.Pending call.ticket.serial) : call ∈ current ++ i.waiting := by
  rw [h.line, List.append_assoc] at member
  refine (List.mem_append.1 member).resolve_left fun served => ?_
  obtain ⟨front, back, split⟩ := List.append_of_mem served
  exact h.settled run split pending

theorem Sequential.effort_pos (h : Sequential es m id first i done current)
    (member : call ∈ current ++ i.waiting) : 0 < i.effort bound call.ticket.serial := by
  have busy (working : 0 < i.phase.effort bound) : 0 < i.effort bound call.ticket.serial :=
    Nat.add_pos_right _ working
  have behind (queued : call ∈ i.mailbox) : 0 < i.effort bound call.ticket.serial := by
    have some : 0 < i.mailbox.countP fun c => c.ticket.serial ≤ call.ticket.serial :=
      List.countP_pos_iff.2 ⟨call, queued, by simp⟩
    exact Nat.add_pos_left (Nat.mul_pos (by omega) some) _
  rcases List.mem_append.1 member with at_ | waits
  · cases h.stands with
    | between => cases at_
    | begun phase | driving phase => exact busy (by simp [phase, Phase.effort])
  · unfold Instance.waiting at waits
    split at waits
    · next taken phase => exact busy (by simp [phase, Phase.effort])
    · exact behind waits

/-- As long as a call is pending, each move of its instance brings its answer nearer. -/
theorem Sequential.effort_lt (h : Sequential es m id first i done current)
    (run : Run (init registry) es m) (split : callsOn id es = before ++ call :: after)
    (pending : m.Pending call.ticket.serial) (brief : Brief first bound (before ++ [call]))
    {rs : List Reply} (serves : i.Serves now rs j) :
    j.effort bound call.ticket.serial < i.effort bound call.ticket.serial := by
  refine serves.effort_lt (fun head rest phase queue => ?_) fun t d rs u e phase more => ?_
  · obtain ⟨rfl, -⟩ := h.stands.of_idle (by rw [phase]; rfl)
    have waits := h.unserved run (split ▸ by simp) pending
    have sorted := (run.line_sorted id).1
    rw [List.nil_append, Instance.waiting, phase] at waits
    rw [h.line, List.append_nil, Instance.waiting, phase] at sorted
    change call ∈ i.mailbox at waits
    change (done ++ i.mailbox).Pairwise _ at sorted
    rw [queue] at waits sorted
    rcases List.mem_cons.1 waits with rfl | behind
    · exact Nat.le_refl _
    · have order := List.pairwise_cons.1 (List.pairwise_append.1 sorted).2.1
      exact Nat.le_of_lt (order.1 call behind)
  · -- the stream under way belongs to a call up to the pending one, so it ends within the bound
    obtain ⟨c, s, vs, rfl, -, opens, pulled, -⟩ := h.stands.of_driving phase
    obtain ⟨back, upTo⟩ := h.up_to run split pending
    obtain ⟨k, within, ends, -⟩ := brief done c back upTo s opens
    have inside : d.position ≤ k := pulled.position ▸ pulled.yields.length_le ends
    have step := pulled.advance ⟨false, now⟩
    have looked : d.advance t (Look.mk false now).cancelled (Look.mk false now).now =
      .more rs u e := more
    have nearer := pulled.distance_lt ends looked
    rw [more] at step
    obtain ⟨-, ws, next, -⟩ := step
    have after : e.position ≤ k := next.position ▸ next.yields.length_le ends
    rw [Drive.distance_of_le inside within, Drive.distance_of_le after within]
    omega

/-- As long as a call is pending, its instance can move at any time that is late enough. -/
theorem Sequential.can_move (h : Sequential es m id first i done current)
    (run : Run (init registry) es m) (found : Table.find? m.instances id = some i)
    (free : Unhindered es m id i) (split : callsOn id es = before ++ call :: after)
    (pending : m.Pending call.ticket.serial) (brief : Brief first bound (before ++ [call])) :
    ∃ time, ∀ now, time ≤ now → ∃ k, m.move? (.instance id now) = some k := by
  have member := h.unserved run (split ▸ by simp) pending
  simp only [move?, stepInstance?, found, Option.bind_eq_bind, Option.bind_some]
  cases phase : i.phase with
  | idle =>
    obtain ⟨rfl, -⟩ := h.stands.of_idle (by rw [phase]; rfl)
    rw [List.nil_append, Instance.waiting, phase] at member
    change call ∈ i.mailbox at member
    cases queue : i.mailbox with
    | nil =>
      rw [queue] at member
      cases member
    | cons head rest => exact ⟨0, fun now _ => by simp [free.isOpen]⟩
  | taken | begun | answered => exact ⟨0, fun now _ => ⟨_, rfl⟩⟩
  | driving t d =>
    obtain ⟨c, s, vs, rfl, -, opens, pulled, -⟩ := h.stands.of_driving phase
    obtain ⟨back, upTo⟩ := h.up_to run split pending
    obtain ⟨k, within, ends, there⟩ := brief done c back upTo s opens
    have inside : d.position ≤ k := pulled.position ▸ pulled.yields.length_le ends
    obtain ⟨e, here⟩ := Option.isSome_iff_exists.1 (there d.position inside)
    rw [← pulled.stream] at here
    obtain ⟨time, comes⟩ := Drive.exists_arrived here
    refine ⟨time, fun now late => ?_⟩
    have kept := h.kept free (t := t) (by rw [phase]; rfl)
    simp only [free.isOpen, kept, Bool.or_false]
    split
    · next waits =>
      have arrived := comes now late
      rw [(Drive.of_waiting waits).2.2] at arrived
      cases arrived
    · exact ⟨_, rfl⟩
    · exact ⟨_, rfl⟩
  | closing | drained | ended =>
    have accepts := run.accepts found free.isOpen
    rw [phase] at accepts
    cases accepts

/-! ## Many moves -/

/-- What happens in some moves, one after the other. -/
def happened (m : Machine σ) : List Move → List (Occurrence σ)
  | [] => []
  | l :: rest => ((m.move? l).map fun k => m.occurrences l k ++ k.happened rest).getD []

theorem happened_cons (step : m.move? l = some k) (rest : List Move) :
    m.happened (l :: rest) = m.occurrences l k ++ k.happened rest := by
  rw [happened, step]
  rfl

theorem run_happened (made : m.after? moves = some n) : Run m (m.happened moves) n := by
  induction moves generalizing m with
  | nil =>
    cases made
    exact .refl
  | cons l rest ih =>
    obtain ⟨k, step, made⟩ := Option.bind_eq_some_iff.1 made
    rw [happened_cons step, ← List.nil_append (m.occurrences l k)]
    exact (Run.refl.move l step).trans (ih made)

/-- How many of some moves are moves of an instance. -/
def turns (id : Nat) (moves : List Move) : Nat :=
  moves.countP fun
    | .instance other _ => other = id
    | _ => false

theorem turns_own (id now : Nat) (rest : List Move) :
    turns id (.instance id now :: rest) = turns id rest + 1 := by
  simp [turns]

theorem turns_other (other : l.holder? ≠ some (.instance id)) (rest : List Move) :
    turns id (l :: rest) = turns id rest := by
  refine List.countP_cons_of_neg ?_
  cases l with
  | «instance» number now =>
    simp only [Move.holder?, ne_eq, Option.some.injEq, Holder.instance.injEq] at other
    simp [other]
  | _ => simp

/-- A call that is taken later is no more work for those before it. -/
theorem Shift.effort_eq (shift : Shift m l k id i (m.effects l) j)
    (other : l.holder? ≠ some (.instance id)) {serial : Nat} (taken : serial < m.serial) :
    j.effort bound serial = i.effort bound serial := by
  cases shift with
  | rest | mark => rfl
  | queue asks named accepts number =>
    have later : ¬ m.serial ≤ serial := by omega
    simp [Instance.effort, List.countP_append, number, later]
  | work moves => exact absurd moves other

/-- A call that was answered stays so. -/
theorem Sequential.settled_of_run (h : Sequential es m id first i done current)
    (whole : Run (init registry) es m) (split : done = before ++ call :: after)
    (since : Run m later n) : ¬ n.Pending call.ticket.serial := by
  have queued : .queued id call ∈ es := by
    rw [← mem_callsOn, h.line, split]
    simp
  obtain ⟨origin, target, packet, asked⟩ := whole.owed queued
  obtain ⟨r, sent, -, last⟩ := (h.answered before call after split).terminal
  have all := whole.trans since
  rw [pending_iff all.orderly.tidy]
  rintro ⟨t, held, serial⟩
  have still : r ∈ n.repliesTo call.ticket.serial :=
    Run.repliesTo_of_last whole asked sent last since ▸ sent
  exact all.orderly.released (requestsIn_of_append asked later) still last t held serial

/-- In whatever moves, a call is answered or its instance has come nearer to its answer by as many
moves as it has made. -/
theorem Run.nearer (run : Run (init registry) es m) (found : Table.find? m.instances id = some i)
    (defined : .defined id name first ∈ es) (split : callsOn id es = before ++ call :: after)
    (brief : Brief first bound (before ++ [call])) (made : m.after? moves = some n)
    (there : Table.find? n.instances id = some j)
    (free : Unhindered (es ++ m.happened moves) n id j) :
    ¬ n.Pending call.ticket.serial ∨
      j.effort bound call.ticket.serial + turns id moves ≤ i.effort bound call.ticket.serial := by
  -- from the first move on; who is not hindered at the end was not hindered on the way
  induction moves generalizing es m i after with
  | nil =>
    cases made
    cases there.symm.trans found
    exact .inr (Nat.le_refl _)
  | cons l rest ih =>
    have since := run_happened made
    have calm := Unhindered.of_run run found since there free
    obtain ⟨done, current, h⟩ := run.sequential found defined calm
    obtain ⟨k, step, made⟩ := Option.bind_eq_some_iff.1 made
    obtain ⟨x, here, shift⟩ := (move_change step).shift run.orderly.tidy found
    rw [happened_cons step, ← List.append_assoc] at free
    by_cases pending : m.Pending call.ticket.serial
    · have longer : callsOn id (es ++ m.occurrences l k) =
          before ++ call :: (after ++ callsOn id (m.occurrences l k)) := by
        rw [callsOn_append, split]
        simp
      refine (ih (run.move l step) here (List.mem_append_left _ defined) longer made free).imp_right
        fun near => ?_
      by_cases mover : l.holder? = some (.instance id)
      · obtain ⟨now, rfl⟩ := instance_of_holder mover
        obtain ⟨rs, next, serves, -, moved⟩ := stepInstance_serves step found calm.isOpen
          (run.accepts found calm.isOpen) fun t => h.kept calm
        cases moved.symm.trans here
        have := h.effort_lt run split pending brief serves
        rw [turns_own]
        omega
      · have taken := (run.line_sorted id).2 call (split ▸ by simp)
        rw [turns_other mover, ← shift.effort_eq mover taken]
        exact near
    · rcases h.place split with ⟨back, served⟩ | ⟨rfl, at_⟩ | waits
      · exact .inl (h.settled_of_run run served since)
      · exact absurd (h.pending run found (by simp [at_])) pending
      · exact absurd (h.pending run found (by simp [waits])) pending

/-- A call on an instance that nobody hinders is answered when the instance has moved often
enough. -/
theorem Run.answered_in_time (run : Run (init registry) es m)
    (found : Table.find? m.instances id = some i) (defined : .defined id name first ∈ es)
    (split : callsOn id es = before ++ call :: after)
    (brief : Brief first bound (before ++ [call])) (made : m.after? moves = some n)
    (there : Table.find? n.instances id = some j)
    (free : Unhindered (es ++ m.happened moves) n id j)
    (enough : i.effort bound call.ticket.serial ≤ turns id moves) :
    (first.serveAll before).Answers name call (n.repliesTo call.ticket.serial) := by
  have whole := run.trans (run_happened made)
  have known : .defined id name first ∈ es ++ m.happened moves := List.mem_append_left _ defined
  obtain ⟨done, current, h⟩ := whole.sequential there known free
  have longer : callsOn id (es ++ m.happened moves) =
      before ++ call :: (after ++ callsOn id (m.happened moves)) := by
    rw [callsOn_append, split]
    simp
  rw [← (whole.state there known).1]
  refine (h.answering whole there longer).2 fun pending => ?_
  have near := (run.nearer found defined split brief made there free).resolve_left fun settled =>
    settled pending
  have left : 0 < j.effort bound call.ticket.serial :=
    h.effort_pos (h.unserved whole (longer ▸ by simp) pending)
  omega

end Machine

end Patchbay
