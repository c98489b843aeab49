import Patchbay.Proofs.Conduits.Courses
import Patchbay.Proofs.Schedules

/-!
# Delivery to a client

Between the broker and a client that keeps reading nothing is lost, doubled or overtaken: what the
client has got, what is ready for it, what the forwarder holds and what is in the outbox are together
what was delivered. So it stays when the broker lets go of its link. From then on every move of the
forwarder and every read brings the last packet nearer, and behind it the client reads that the
connection is closed.
-/

namespace Patchbay.Conduit

variable {c d : Conduit} {note : Note} {notes : List Note} {capacity : Nat}

/-! ## What is on its way -/

theorem Happens.reading (happens : Happens c note d) (reads : d.reading = true) :
    c.reading = true := by
  cases happens with
  | closed => cases reads
  | _ => exact reads

/-- What goes in at one end comes out at the other or is on its way. -/
theorem Happens.balance (happens : Happens c note d) (reads : d.reading = true) :
    c.inTransit ++ deliveredIn [note] = gotIn [note] ++ d.inTransit := by
  cases happens with
  | closed => cases reads
  | @got p rest first =>
    change c.inTransit ++ [] = [p] ++ _
    simp [inTransit, first]
  | @delivered p =>
    change c.inTransit ++ [p] = [] ++ _
    simp [inTransit, deliver]
  | took forwarding free first =>
    change c.inTransit ++ [] = [] ++ _
    simp [inTransit, free, first]
  | handed forwarding held =>
    change c.inTransit ++ [] = [] ++ _
    simp [inTransit, held]
  | gaveUp forwarding held deaf =>
    rw [deaf] at reads
    cases reads
  | _ => exact List.append_nil _

/-- How a connection stands towards its client. -/
structure Carried (notes : List Note) (c : Conduit) : Prop where
  balance : c.reading = true → gotIn notes ++ c.inTransit = deliveredIn notes
  bounded : c.ready.length ≤ c.capacity
  ended : c.reading = true → c.forwarding = false →
    c.linked = false ∧ c.held = none ∧ c.outbox.toList = []
  failed : ∀ e, .failed e ∈ notes → c.reading = true →
    e = .closed ∧ c.forwarding = false ∧ c.ready.toList = []

theorem carried_start (capacity : Nat) : Carried [] (start capacity) where
  balance _ := rfl
  bounded := Nat.zero_le _
  ended _ stopped := by cases stopped
  failed := by simp

theorem Happens.bounded (happens : Happens c note d) (bounded : c.ready.length ≤ c.capacity) :
    d.ready.length ≤ d.capacity := by
  cases happens with
  | @got p rest first =>
    have size : c.ready.length = rest.length + 1 := by simpa using congrArg List.length first
    rw [size] at bounded
    exact Nat.le_of_succ_le bounded
  | @handed p forwarding held reading room =>
    have size : (c.ready.push p).length = c.ready.length + 1 := by
      simp [← Queue.length_toList]
    dsimp only
    rw [size]
    exact room
  | _ => exact bounded

/-- The forwarder of a client that reads ends behind the last packet of a dropped link. -/
theorem Happens.ended (happens : Happens c note d)
    (ended : c.reading = true → c.forwarding = false →
      c.linked = false ∧ c.held = none ∧ c.outbox.toList = [])
    (reads : d.reading = true) (stopped : d.forwarding = false) :
    d.linked = false ∧ d.held = none ∧ d.outbox.toList = [] := by
  have before := ended (happens.reading reads)
  cases happens with
  | closed => cases reads
  | delivered forwarding | took forwarding | handed forwarding =>
    exact absurd (forwarding.symm.trans stopped) (by simp)
  | unlinked => exact ⟨rfl, (before stopped).2⟩
  | gaveUp forwarding held deaf => exact absurd (deaf.symm.trans reads) (by simp)
  | finished forwarding free empty unlinked => exact ⟨unlinked, free, empty⟩
  | _ => exact before stopped

/-- Behind the end of the connection nothing comes any more. -/
theorem Happens.shut (happens : Happens c note d) (reads : d.reading = true)
    (stopped : c.forwarding = false) (empty : c.ready.toList = []) :
    d.forwarding = false ∧ d.ready.toList = [] := by
  cases happens with
  | got first =>
    rw [empty] at first
    cases first
  | delivered forwarding | took forwarding | handed forwarding | gaveUp forwarding
  | finished forwarding =>
    exact absurd (forwarding.symm.trans stopped) (by simp)
  | _ => exact ⟨stopped, empty⟩

theorem Carried.next (carried : Carried notes c) (happens : Happens c note d) :
    Carried (notes ++ [note]) d where
  balance reads := by
    calc gotIn (notes ++ [note]) ++ d.inTransit
        = gotIn notes ++ (gotIn [note] ++ d.inTransit) := by rw [gotIn_append, List.append_assoc]
      _ = (gotIn notes ++ c.inTransit) ++ deliveredIn [note] := by
          rw [← happens.balance reads, List.append_assoc]
      _ = deliveredIn (notes ++ [note]) := by
          rw [carried.balance (happens.reading reads), deliveredIn_append]
  bounded := happens.bounded carried.bounded
  ended := happens.ended carried.ended
  failed e member reads := by
    rcases List.mem_append.1 member with old | new
    · obtain ⟨rfl, stopped, empty⟩ := carried.failed e old (happens.reading reads)
      exact ⟨rfl, happens.shut reads stopped empty⟩
    · obtain rfl := List.mem_singleton.1 new
      cases happens with
      | failed empty ended =>
        have stopped := ended.resolve_right (by simp [show c.reading = true from reads])
        exact ⟨rfl, stopped, empty⟩

theorem Course.carried (course : Course capacity notes c) : Carried notes c := by
  induction course with
  | start => exact carried_start capacity
  | act a before step ih => exact ih.next (happens_of_act step)

/-! ## The rest arrives -/

/-- Tries an act; one that cannot be made is passed over. -/
def attempt (c : Conduit) (a : Act) : List Note × Conduit :=
  match c.act? a with
  | some (note, d) => ([note], d)
  | none => ([], c)

/-- Tries some acts, one after the other. -/
def attempts (c : Conduit) : List Act → List Note × Conduit
  | [] => ([], c)
  | a :: rest =>
    ((c.attempt a).1 ++ ((c.attempt a).2.attempts rest).1, ((c.attempt a).2.attempts rest).2)

theorem attempts_append (c : Conduit) (as bs : List Act) :
    c.attempts (as ++ bs) =
      ((c.attempts as).1 ++ ((c.attempts as).2.attempts bs).1, ((c.attempts as).2.attempts bs).2) := by
  induction as generalizing c with
  | nil => rfl
  | cons a rest ih => simp only [List.cons_append, attempts, ih, List.append_assoc]

theorem Course.attempt (course : Course capacity notes c) (a : Act) :
    Course capacity (notes ++ (c.attempt a).1) (c.attempt a).2 := by
  unfold Conduit.attempt
  split
  · next step => exact course.act a step
  · rwa [List.append_nil]

theorem Course.attempts (course : Course capacity notes c) (as : List Act) :
    Course capacity (notes ++ (c.attempts as).1) (c.attempts as).2 := by
  induction as generalizing notes c with
  | nil => simpa [Conduit.attempts] using course
  | cons a rest ih =>
    have next := ih (course.attempt a)
    rwa [List.append_assoc] at next

/-- Whether an act is neither a delivery nor the client's closing. -/
def Act.spares : Act → Bool
  | deliver _ | close => false
  | _ => true

/-- Whether a note tells neither of a delivery nor of the client's closing. -/
def Note.spares : Note → Bool
  | delivered _ | closed => false
  | _ => true

theorem spares_of_act {a : Act} (spares : a.spares = true) (step : c.act? a = some (note, d)) :
    note.spares = true := by
  cases a with
  | deliver p | close => cases spares
  | send p | receive =>
    simp only [act?] at step
    split at step <;> cases step <;> rfl
  | unlink | abort =>
    cases step
    rfl
  | pump | forward =>
    obtain ⟨e, -, same⟩ := Option.map_eq_some_iff.1 step
    cases same
    rfl

theorem spares_of_attempts {as : List Act} (spares : ∀ a ∈ as, a.spares = true) :
    ∀ note ∈ (c.attempts as).1, note.spares = true := by
  induction as generalizing c with
  | nil => simp [attempts]
  | cons a rest ih =>
    intro note member
    rcases List.mem_append.1 member with now | later
    · unfold attempt at now
      split at now
      · next step =>
        rw [List.mem_singleton.1 now]
        exact spares_of_act (spares a List.mem_cons_self) step
      · cases now
    · exact ih (fun b behind => spares b (List.mem_cons_of_mem a behind)) note later

/-- How many moves of the forwarder and reads the end of the connection is away. -/
def debt (c : Conduit) : Nat :=
  3 * c.outbox.length + 2 * c.held.toList.length + c.ready.length + if c.forwarding then 1 else 0

/-- What of a connection lies between the broker and the client. -/
def side (c : Conduit) : Queue Packet × Option Packet × Queue Packet × Bool :=
  (c.outbox, c.held, c.ready, c.forwarding)

theorem debt_of_side (same : d.side = c.side) : d.debt = c.debt := by
  simp only [side, Prod.mk.injEq] at same
  obtain ⟨outbox, held, ready, forwarding⟩ := same
  simp only [debt, outbox, held, ready, forwarding]

/-- Whether a note tells that a packet, or the end, came nearer to the client. -/
def Note.advances : Note → Bool
  | got _ | forwarded => true
  | _ => false

theorem Happens.debt (happens : Happens c note d) (spares : note.spares = true)
    (reads : c.reading = true) :
    if note.advances then d.debt < c.debt else d.side = c.side := by
  cases happens with
  | closed | delivered => cases spares
  | got first =>
    have size := congrArg List.length first
    simp only [Queue.length_toList, List.length_cons] at size
    change _ < _
    simp only [Conduit.debt]
    omega
  | took forwarding free first =>
    have size := congrArg List.length first
    simp only [Queue.length_toList, List.length_cons] at size
    change _ < _
    simp only [Conduit.debt, free, Option.toList_some, Option.toList_none, List.length_singleton,
      List.length_nil]
    omega
  | handed forwarding held =>
    change _ < _
    simp only [Conduit.debt, held, ← Queue.length_toList, Queue.toList_push, List.length_append,
      Option.toList_some, Option.toList_none, List.length_singleton, List.length_nil]
    omega
  | gaveUp forwarding held deaf => exact absurd (deaf.symm.trans reads) (by simp)
  | finished forwarding =>
    change _ < _
    simp [Conduit.debt, forwarding]
  | _ => exact rfl

/-- The next move of the forwarder of a dropped link, as long as it runs. -/
theorem forward_due (forwarding : c.forwarding = true) (reads : c.reading = true)
    (unlinked : c.linked = false) (empty : c.ready.toList = []) (room : 1 ≤ c.capacity) :
    ∃ d, c.act? .forward = some (.forwarded, d) := by
  have size : c.ready.length = 0 := by rw [← Queue.length_toList, empty]; rfl
  have moves : ∃ d, c.forward? = some d := by
    unfold forward?
    simp only [forwarding, reads, unlinked, Bool.not_true, Bool.false_eq_true, if_false]
    cases c.held with
    | some p => exact ⟨_, if_pos (by omega)⟩
    | none => cases c.outbox.pop? <;> exact ⟨_, rfl⟩
  obtain ⟨d, moved⟩ := moves
  exact ⟨d, by rw [act?, moved]; rfl⟩

/-- Of a dropped link, a move of the forwarder or a read brings something nearer, or tells the end; and
it does so as long as nothing changes between the broker and the client. -/
theorem exists_due (c : Conduit) :
    ∃ a, (a = .forward ∨ a = .receive) ∧ ∀ e : Conduit, e.side = c.side → e.reading = true →
      e.linked = false → 1 ≤ e.capacity →
        ∃ note d, e.act? a = some (note, d) ∧ (note.advances = true ∨ note = .failed .closed) := by
  cases waits : c.ready.pop? with
  | some entry =>
    refine ⟨.receive, .inr rfl, fun e same _ _ _ => ?_⟩
    have ready : e.ready = c.ready := congrArg (·.2.2.1) same
    exact ⟨.got entry.1, { e with ready := entry.2 }, by simp only [act?, receive, ready, waits],
      .inl rfl⟩
  | none =>
    have empty := Queue.pop?_eq_none_iff.1 waits
    cases runs : c.forwarding with
    | true =>
      refine ⟨.forward, .inl rfl, fun e same reads unlinked room => ?_⟩
      have ready : e.ready = c.ready := congrArg (·.2.2.1) same
      have forwarding : e.forwarding = c.forwarding := congrArg (·.2.2.2) same
      obtain ⟨d, moved⟩ :=
        forward_due (forwarding.trans runs) reads unlinked (ready ▸ empty) room
      exact ⟨.forwarded, d, moved, .inl rfl⟩
    | false =>
      refine ⟨.receive, .inr rfl, fun e same _ _ _ => ?_⟩
      have ready : e.ready = c.ready := congrArg (·.2.2.1) same
      have forwarding : e.forwarding = c.forwarding := congrArg (·.2.2.2) same
      refine ⟨.failed .closed, e, ?_, .inr rfl⟩
      simp only [act?, receive, ready, waits, forwarding, runs, Bool.false_and, Bool.false_eq_true,
        if_false]

section

variable {acts : Schedule Act}

theorem spares_of_first (spares : ∀ i, (acts i).spares = true) (n : Nat) :
    ∀ note ∈ (c.attempts (acts.first n)).1, note.spares = true := by
  refine spares_of_attempts fun a member => ?_
  obtain ⟨i, -, rfl⟩ := Schedule.mem_first.1 member
  exact spares i

theorem stays_open (isOpen : .closed ∉ notes) (spares : ∀ i, (acts i).spares = true) (n : Nat) :
    .closed ∉ notes ++ (c.attempts (acts.first n)).1 := by
  intro member
  rcases List.mem_append.1 member with old | new
  · exact isOpen old
  · exact absurd (spares_of_first spares n _ new) (by simp [Note.spares])

/-- What comes of an act that can be made when its turn comes. -/
theorem attempts_succ {n : Nat}
    (step : (c.attempts (acts.first n)).2.act? (acts n) = some (note, d)) :
    c.attempts (acts.first (n + 1)) = ((c.attempts (acts.first n)).1 ++ [note], d) := by
  rw [acts.first_succ, attempts_append]
  simp only [attempts, attempt, step, List.append_nil]

/-- Until something comes nearer to the client, nothing changes between the broker and the client. -/
theorem Course.exists_debt_lt (course : Course capacity notes c) (isOpen : .closed ∉ notes)
    (spares : ∀ i, (acts i).spares = true) (n : Nat) :
    (∃ m, (c.attempts (acts.first m)).2.debt < c.debt) ∨
      (c.attempts (acts.first n)).2.side = c.side := by
  induction n with
  | zero => exact .inr rfl
  | succ n ih =>
    rcases ih with less | same
    · exact .inl less
    · have reads := (course.attempts (acts.first n)).flagged.reading.2 (stays_open isOpen spares n)
      cases step : (c.attempts (acts.first n)).2.act? (acts n) with
      | none =>
        refine .inr ?_
        rw [acts.first_succ, attempts_append]
        simpa only [Conduit.attempts, Conduit.attempt, step] using same
      | some come =>
        obtain ⟨note, d⟩ := come
        have moved := (happens_of_act step).debt (spares_of_act (spares n) step) reads
        split at moved
        · exact .inl ⟨n + 1, by rwa [attempts_succ step, ← debt_of_side same]⟩
        · exact .inr (by rw [attempts_succ step, moved, same])

/-- Sooner or later something comes nearer to the client of a dropped link, or it is told the end. -/
theorem Course.exists_step (course : Course capacity notes c) (isOpen : .closed ∉ notes)
    (unlinked : .unlinked ∈ notes) (spares : ∀ i, (acts i).spares = true)
    (forwards : acts.Recurs (· = .forward)) (receives : acts.Recurs (· = .receive)) :
    ∃ n, (c.attempts (acts.first n)).2.debt < c.debt ∨
      .failed .closed ∈ (c.attempts (acts.first n)).1 := by
  obtain ⟨a, due, comes⟩ := c.exists_due
  obtain ⟨n, here⟩ : ∃ n, acts n = a := by
    rcases due with rfl | rfl
    · obtain ⟨n, -, here⟩ := forwards 0
      exact ⟨n, here⟩
    · obtain ⟨n, -, here⟩ := receives 0
      exact ⟨n, here⟩
  rcases course.exists_debt_lt isOpen spares n with ⟨m, less⟩ | same
  · exact ⟨m, .inl less⟩
  · have flagged := (course.attempts (acts.first n)).flagged
    have reads := flagged.reading.2 (stays_open isOpen spares n)
    have dropped := flagged.unlinked.2 (List.mem_append_left _ unlinked)
    have room : 1 ≤ (c.attempts (acts.first n)).2.capacity :=
      flagged.capacity ▸ Nat.le_max_right capacity 1
    obtain ⟨note, d, step, outcome⟩ := comes _ same reads dropped room
    rw [← here] at step
    rcases outcome with advances | rfl
    · have moved := (happens_of_act step).debt (spares_of_act (spares n) step) reads
      rw [if_pos advances, debt_of_side same] at moved
      exact ⟨n + 1, .inl (by rwa [attempts_succ step])⟩
    · exact ⟨n + 1, .inr (by simp [attempts_succ step])⟩

/-- The client of a dropped link that reads on is told the end. -/
theorem Course.reaches_end (course : Course capacity notes c) (isOpen : .closed ∉ notes)
    (unlinked : .unlinked ∈ notes) (spares : ∀ i, (acts i).spares = true)
    (forwards : acts.Recurs (· = .forward)) (receives : acts.Recurs (· = .receive)) :
    ∃ n, .failed .closed ∈ (c.attempts (acts.first n)).1 := by
  induction owed : c.debt using Nat.strongRecOn generalizing notes c acts with
  | ind size ih =>
    obtain ⟨n, less | told⟩ := course.exists_step isOpen unlinked spares forwards receives
    · obtain ⟨m, told⟩ := ih _ (owed ▸ less) (course.attempts (acts.first n))
        (stays_open isOpen spares n) (List.mem_append_left _ unlinked)
        (fun i => spares (n + i)) (forwards.behind n) (receives.behind n) rfl
      refine ⟨n + m, ?_⟩
      rw [acts.first_add, attempts_append]
      exact List.mem_append_right _ told
    · exact ⟨n, told⟩

end

/-- A client that is told the end has got everything. -/
theorem Course.got_all (course : Course capacity notes c) (isOpen : .closed ∉ notes)
    {e : TransportError} (told : .failed e ∈ notes) :
    e = .closed ∧ .unlinked ∈ notes ∧ gotIn notes = deliveredIn notes := by
  have flagged := course.flagged
  have carried := course.carried
  have reads := flagged.reading.2 isOpen
  obtain ⟨rfl, stopped, empty⟩ := carried.failed e told reads
  obtain ⟨unlinked, free, drained⟩ := carried.ended reads stopped
  have balance := carried.balance reads
  have nothing : c.inTransit = [] := by simp [inTransit, empty, free, drained]
  rw [nothing, List.append_nil] at balance
  exact ⟨rfl, flagged.unlinked.1 unlinked, balance⟩

theorem deliveredIn_of_spares (spares : ∀ note ∈ notes, note.spares = true) :
    deliveredIn notes = [] := by
  refine List.filterMap_eq_nil_iff.2 fun note member => ?_
  have spared := spares note member
  cases note with
  | delivered p => cases spared
  | _ => rfl

/-! ## Main result -/

/-- In every course of a connection, in whatever order its parts act: as long as the client has not
closed, what it has got, what is ready for it, what the forwarder holds and what is in the outbox are
what was delivered, each packet once and in order, and over a link that is held every packet can be
delivered; no more is ever ready than there is room for; the client is told the end of a dropped link
behind the last packet, and if it reads on, and the forwarder moves on, it is told. -/
theorem delivery_lossless (course : Course capacity notes c) :
    (.closed ∉ notes →
      gotIn notes ++ c.ready.toList ++ c.held.toList ++ c.outbox.toList = deliveredIn notes) ∧
    c.ready.length ≤ max capacity 1 ∧
    (.closed ∉ notes → .unlinked ∉ notes → ∀ p,
      c.act? (.deliver p) = some (.delivered p, c.deliver p)) ∧
    (.closed ∉ notes → ∀ e, .failed e ∈ notes →
      e = .closed ∧ .unlinked ∈ notes ∧ gotIn notes = deliveredIn notes) ∧
    (.closed ∉ notes → .unlinked ∈ notes → ∀ acts : Schedule Act,
      (∀ i, (acts i).spares = true) → acts.Recurs (· = .forward) → acts.Recurs (· = .receive) →
        ∃ n, .failed .closed ∈ (c.attempts (acts.first n)).1 ∧
          gotIn notes ++ gotIn (c.attempts (acts.first n)).1 = deliveredIn notes) := by
  have flagged := course.flagged
  have carried := course.carried
  refine ⟨fun isOpen => ?_, flagged.capacity ▸ carried.bounded, fun isOpen held p => ?_,
    fun isOpen e told => course.got_all isOpen told,
    fun isOpen unlinked acts spares forwards receives => ?_⟩
  · have balance := carried.balance (flagged.reading.2 isOpen)
    simpa only [inTransit, List.append_assoc] using balance
  · cases forwarding : c.forwarding with
    | true => simp only [act?, deliverable, forwarding, if_true]
    | false =>
      have dropped := (carried.ended (flagged.reading.2 isOpen) forwarding).1
      exact absurd (flagged.unlinked.1 dropped) held
  · obtain ⟨n, told⟩ := course.reaches_end isOpen unlinked spares forwards receives
    refine ⟨n, told, ?_⟩
    obtain ⟨-, -, whole⟩ := (course.attempts (acts.first n)).got_all
      (stays_open isOpen spares n) (List.mem_append_right _ told)
    rw [gotIn_append, deliveredIn_append, deliveredIn_of_spares (spares_of_first spares n),
      List.append_nil] at whole
    exact whole

/-- The forwarder moves and the client reads, by turns. -/
def byTurns : Schedule Act := fun i => if i % 2 = 0 then .forward else .receive

/-- A read gives up, two packets are delivered to a client with room for one, which reads one of them,
and the broker lets go of the link. -/
def twoDeliveries : List Act :=
  [.receive, .deliver (.cancel "a"), .deliver (.cancel "b"), .forward, .forward, .forward, .receive,
    .forward, .unlink]

theorem delivery_lossless_two :
    ∃ (notes : List Note) (c : Conduit), (start 0).attempts twoDeliveries = (notes, c) ∧
      deliveredIn notes = [.cancel "a", .cancel "b"] ∧ c.ready.toList = [.cancel "b"] ∧
      gotIn notes ++ [.cancel "b"] = deliveredIn notes ∧ c.ready.length ≤ 1 ∧
      ∃ n, .failed .closed ∈ (c.attempts (byTurns.first n)).1 ∧
        gotIn notes ++ gotIn (c.attempts (byTurns.first n)).1 = deliveredIn notes := by
  let notes : List Note := [.expired, .delivered (.cancel "a"), .delivered (.cancel "b"), .forwarded,
    .forwarded, .forwarded, .got (.cancel "a"), .forwarded, .unlinked]
  obtain ⟨c, made, ready, free, empty⟩ : ∃ c, (start 0).attempts twoDeliveries = (notes, c) ∧
      c.ready.toList = [.cancel "b"] ∧ c.held = none ∧ c.outbox.toList = [] :=
    ⟨_, rfl, rfl, rfl, rfl⟩
  have course : Course 0 notes c := by
    have begun := (Course.start : Course 0 _ _).attempts twoDeliveries
    rwa [made] at begun
  obtain ⟨balance, bounded, -, -, arrives⟩ := delivery_lossless course
  have isOpen : Note.closed ∉ notes := by simp [notes]
  have unlinked : Note.unlinked ∈ notes := by simp [notes]
  have whole := balance isOpen
  rw [ready, free, empty, Option.toList_none, List.append_nil, List.append_nil] at whole
  have spares (i : Nat) : (byTurns i).spares = true := by
    unfold byTurns
    split <;> rfl
  have forwards : byTurns.Recurs (· = .forward) := fun n => ⟨2 * n, by omega, by simp [byTurns]⟩
  have receives : byTurns.Recurs (· = .receive) := fun n =>
    ⟨2 * n + 1, by omega, by simp [byTurns]⟩
  exact ⟨notes, c, made, rfl, ready, whole, bounded,
    arrives isOpen unlinked byTurns spares forwards receives⟩

end Patchbay.Conduit
