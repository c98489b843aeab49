import Patchbay.Proofs.Streams

/-!
# Streams under way

A task, or an instance, that is at a stream looks at it at each of its moves, and sends what these
looks lead to; nobody else touches the stream or replies to its call. So what a machine sends for a
stream in a run is what watching the stream sends, by the looks that were taken in that run.
-/

namespace Patchbay.Machine

variable {σ : Type} {m k n : Machine σ} {asked : List Request} {h : Holder} {t u : Ticket}
  {d : Drive} {l : Move} {moves : List Move}

/-! ## Who is at a stream -/

/-- A holder is at a stream, for the call with a ticket. -/
def Drives (m : Machine σ) : Holder → Ticket → Drive → Prop
  | .task id, t, d => Table.find? m.tasks id = some ⟨t, .drive d⟩
  | .instance id, t, d => ∃ i, Table.find? m.instances id = some i ∧ i.phase = .driving t d
  | .waiter _, _, _ => False

/-- The look at the stream of a holder that a move takes. -/
def look? (m : Machine σ) (t : Ticket) : Holder → Move → Option Look
  | .task id, .task number now => if number = id then some ⟨m.isCancelled t, now⟩ else none
  | .instance id, .instance number now =>
    if number = id then
      (Table.find? m.instances id).map fun i => ⟨m.isClosed i || m.isCancelled t, now⟩
    else none
  | _, _ => none

/-- The looks at the stream of a holder that some moves take, one after the other. -/
def looks (m : Machine σ) (t : Ticket) (h : Holder) : List Move → List Look
  | [] => []
  | l :: rest =>
    (m.look? t h l).toList ++ ((m.move? l).map fun k => k.looks t h rest).getD []

theorem Drives.held (drives : m.Drives h t d) : t ∈ m.heldAt h := by
  cases h with
  | task id =>
    rw [heldAt_task drives]
    exact mem_heldTask.2 ⟨nofun, rfl⟩
  | «instance» id =>
    obtain ⟨i, found, phase⟩ := drives
    rw [heldAt_instance found]
    exact mem_heldInstance.2 (.inl (by rw [phase]; rfl))
  | waiter id => exact drives.elim

theorem look?_of_other (m : Machine σ) (t : Ticket) (other : l.holder? ≠ some h) :
    m.look? t h l = none := by
  unfold look?
  split
  · next id number now =>
    exact if_neg fun same => other (congrArg (some ∘ Holder.task) same)
  · next id number now =>
    exact if_neg fun same => other (congrArg (some ∘ Holder.instance) same)
  · rfl

theorem look?_congr (m : Machine σ) (same : u.serial = t.serial) (h : Holder) (l : Move) :
    m.look? u h l = m.look? t h l := by
  have cancelled : m.isCancelled u = m.isCancelled t := by rw [isCancelled, isCancelled, same]
  unfold look?
  rw [cancelled]

theorem looks_congr (m : Machine σ) (same : u.serial = t.serial) (h : Holder)
    (moves : List Move) : m.looks u h moves = m.looks t h moves := by
  induction moves generalizing m with
  | nil => rfl
  | cons l rest ih =>
    rw [looks, looks, m.look?_congr same]
    cases m.move? l with
    | none => rfl
    | some k => exact congrArg _ (ih k)

/-! ## One move -/

/-- A holder stays at its stream while others move. -/
theorem Drives.of_other (drives : m.Drives h t d) (tidy : m.Tidy m.serial)
    (other : l.holder? ≠ some h) (step : m.move? l = some k) : k.Drives h t d := by
  cases h with
  | task id => exact tasks_of_move step other drives
  | «instance» id =>
    obtain ⟨i, found, phase⟩ := drives
    obtain ⟨j, there, shift⟩ := (move_change step).shift tidy found
    have same : j.phase = i.phase := by
      cases shift with
      | rest | mark | queue => rfl
      | work moves => exact absurd moves other
    exact ⟨j, there, same.trans phase⟩
  | waiter id => exact drives.elim

/-- What a look led to has come about: it was not in vain, what it says was sent, and the holder is at
what is left. -/
def Came (m : Machine σ) (h : Holder) (k : Machine σ) : Progress → Prop
  | .waiting => False
  | .more rs u e => k.replies = m.replies ++ rs ∧ k.Drives h u e
  | .ended rs => k.replies = m.replies ++ rs

/-- A move of a holder that is at a stream is a look at it. -/
theorem Drives.advance (drives : m.Drives h t d) (moves : l.holder? = some h)
    (step : m.move? l = some k) :
    ∃ look, m.look? t h l = some look ∧ Came m h k (d.advance t look.cancelled look.now) := by
  cases h with
  | task id =>
    cases l with
    | task number now =>
      cases moves
      refine ⟨⟨m.isCancelled t, now⟩, if_pos rfl, ?_⟩
      have found : Table.find? m.tasks id = some ⟨t, .drive d⟩ := drives
      simp only [move?, stepTask?, found, Option.bind_eq_bind, Option.bind_some] at step
      dsimp only
      split at step
      · cases step
      · next rs u e more =>
        cases step
        rw [more]
        exact ⟨rfl, by simp [Drives, setWork, Table.find?_put]⟩
      · next rs ended =>
        cases step
        rw [ended]
        exact rfl
    | _ => cases moves
  | «instance» id =>
    cases l with
    | «instance» number now =>
      cases moves
      obtain ⟨i, found, phase⟩ := drives
      refine ⟨⟨m.isClosed i || m.isCancelled t, now⟩, by simp [look?, found], ?_⟩
      simp only [move?, stepInstance?, found, phase, Option.bind_eq_bind, Option.bind_some] at step
      dsimp only
      split at step
      · cases step
      · next rs u e more =>
        cases step
        rw [more]
        exact ⟨rfl, _, find?_setInstance _ id _, rfl⟩
      · next rs ended =>
        cases step
        rw [ended]
        exact rfl
    | _ => cases moves
  | waiter id => exact drives.elim

/-! ## Runs -/

theorem looks_cons (step : m.move? l = some k) (t : Ticket) (h : Holder) (rest : List Move) :
    m.looks t h (l :: rest) = (m.look? t h l).toList ++ k.looks t h rest := by
  rw [looks, step]
  rfl

theorem repliesTo_append {rs : List Reply} (replies : k.replies = m.replies ++ rs)
    (own : ∀ r ∈ rs, r.serial = t.serial) :
    k.repliesTo t.serial = m.repliesTo t.serial ++ rs := by
  rw [repliesTo, replies, Ledger.repliesTo_append, Ledger.repliesTo_eq_self own]
  rfl

/-- No run replies behind a last reply. -/
theorem repliesTo_of_settled (history : History asked m) {number : Nat} {origin : ClientId}
    {target : Target} {packet : Packet}
    (handled : asked[number]? = some (.execute origin target packet)) {r : Reply}
    (sent : r ∈ m.repliesTo number) (terminal : r.packet.isTerminal = true)
    (run : m.after? moves = some n) : n.repliesTo number = m.repliesTo number := by
  induction moves generalizing asked m with
  | nil =>
    cases run
    rfl
  | cons l rest ih =>
    obtain ⟨k, step, run⟩ := Option.bind_eq_some_iff.1 run
    have same := repliesTo_of_terminal history.orderly handled sent terminal step
    have inside := (List.getElem?_eq_some_iff.1 handled).1
    have known : (asked ++ l.asked)[number]? = some (.execute origin target packet) :=
      (List.getElem?_append_left inside).trans handled
    rw [ih (.move l history step) known (same ▸ sent) run, same]

/-- What a machine sends for a stream in a run is what watching it sends, and it is at what is left of
it. -/
theorem Drives.after (history : History asked m) (drives : m.Drives h t d)
    (run : m.after? moves = some n) :
    n.repliesTo t.serial = m.repliesTo t.serial ++ (d.watch t (m.looks t h moves)).1 ∧
      ∀ u e, (d.watch t (m.looks t h moves)).2 = some (u, e) → n.Drives h u e := by
  induction moves generalizing asked m t d with
  | nil =>
    cases run
    refine ⟨by simp [looks, Drive.watch], fun u e left => ?_⟩
    cases left
    exact drives
  | cons l rest ih =>
    obtain ⟨k, step, run⟩ := Option.bind_eq_some_iff.1 run
    have behind : History (asked ++ l.asked) k := .move l history step
    rw [looks_cons step]
    by_cases mover : l.holder? = some h
    · obtain ⟨look, taken, came⟩ := drives.advance mover step
      rw [taken, Option.toList_some, List.singleton_append]
      have paid := d.advance_paid t look.cancelled look.now
      cases progress : d.advance t look.cancelled look.now with
      | waiting =>
        rw [progress] at came
        exact came.elim
      | more rs u e =>
        rw [progress] at came paid
        obtain ⟨replies, goes⟩ := came
        have same : u.serial = t.serial := paid.serial.2 u (Multiset.mem_singleton_self u)
        obtain ⟨sent, left⟩ := ih behind goes run
        rw [same, repliesTo_append replies paid.serial.1, k.looks_congr same,
          List.append_assoc] at sent
        rw [k.looks_congr same] at left
        rw [Drive.watch_of_more progress]
        exact ⟨sent, left⟩
      | ended rs =>
        rw [progress] at came paid
        have sent := repliesTo_append came paid.serial.1
        have held : t ∈ m.held := Multiset.mem_of_le (m.heldAt_le h) drives.held
        obtain ⟨origin, target, packet, handled⟩ := history.orderly.sound.owed t held
        have inside := (List.getElem?_eq_some_iff.1 handled).1
        have known : (asked ++ l.asked)[t.serial]? = some (.execute origin target packet) :=
          (List.getElem?_append_left inside).trans handled
        obtain ⟨r, last, -, terminal⟩ := paid.terminal
        have settled : n.repliesTo t.serial = k.repliesTo t.serial :=
          repliesTo_of_settled behind known (sent ▸ List.mem_append_right _ last) terminal run
        rw [Drive.watch_of_ended progress, settled, sent]
        exact ⟨rfl, fun u e left => by cases left⟩
    · have still := drives.of_other history.orderly.tidy mover step
      have quiet := repliesTo_of_other history.orderly drives.held mover step
      obtain ⟨sent, left⟩ := ih behind still run
      rw [m.look?_of_other t mover, Option.toList_none, List.nil_append]
      rw [quiet] at sent
      exact ⟨sent, left⟩

/-! ## Main result -/

open Drive in
/-- A stream that is driven with a fresh ticket is sent as it is. Whatever looks are taken, what is
sent are its values, each once and in their order, as outputs that are not the last, until it ends
(then the last value is done, or null if there was none), fails, or is found to be cancelled; the
outputs are numbered from zero. Nothing behind its end is pulled. It gets through when it comes to an
end, or is cancelled, and is looked at again and again. A machine that is at the stream sends what
its looks lead to, in any run. -/
theorem stream_sent (s : Stream) (t : Ticket) (fresh : t.sequence = 0) (since : Nat) :
    (∀ looks : List Look,
      Emits s t ((start s since).noticed? t looks) ((start s since).watch t looks).1
          ((start s since).watch t looks).2 ∧
        (((start s since).watch t looks).1.length < 2 ^ 32 →
          ReplyStream t.origin t.tx t.target ((start s since).watch t looks).1)) ∧
    (∀ (s' : Stream) (k : Nat), s.EndsAt k → (∀ i ≤ k, s'.pull i = s.pull i) →
      ∀ looks : List Look,
        (start s' since).noticed? t looks = (start s since).noticed? t looks ∧
          ((start s' since).watch t looks).1 = ((start s since).watch t looks).1 ∧
          (((start s' since).watch t looks).2 = none ↔
            ((start s since).watch t looks).2 = none)) ∧
    (∀ looks : Schedule Look,
      (Fair looks ∧ ∃ k, s.EndsAt k ∧ ∀ i ≤ k, (s.element? i).isSome) ∨
          (∃ n, ∀ i, n ≤ i → (looks i).cancelled = true) →
        ∃ n, ∀ m, n ≤ m → ((start s since).watch t (looks.first m)).2 = none) ∧
    (∀ (asked : List Request) (m n : Machine σ) (h : Holder) (moves : List Move),
      History asked m → m.Drives h t (start s since) → m.after? moves = some n →
        n.repliesTo t.serial =
          m.repliesTo t.serial ++ ((start s since).watch t (m.looks t h moves)).1) := by
  have pulled := pulled_start s t since
  refine ⟨fun looks => ?_, fun s' k ends same looks => ?_, fun looks due => ?_,
    fun asked m n h moves history drives run => (drives.after history run).1⟩
  · have emits : Emits s t ((start s since).noticed? t looks) ((start s since).watch t looks).1
        ((start s since).watch t looks).2 := pulled.watch looks
    obtain ⟨held, paid⟩ := emits.spend
    exact ⟨emits, fun few => (paid.stream fresh few).1⟩
  · obtain ⟨watched, seen⟩ := pulled.watch_onto ends same looks
    have moved : (start s since).onto s' = start s' since := rfl
    rw [moved] at watched seen
    rw [watched]
    exact ⟨seen, rfl, by simp [leftOnto]⟩
  · obtain ⟨n, through⟩ : ∃ n, ((start s since).watch t (looks.first n)).2 = none := by
      rcases due with ⟨fair, k, ends, there⟩ | ⟨n, cancelled⟩
      · exact pulled.reaches_end fair ends there
      · exact ⟨n + 2, ends_of_cancelled _ t cancelled⟩
    refine ⟨n, fun m late => ?_⟩
    obtain ⟨more, rfl⟩ := Nat.exists_eq_add_of_le late
    rw [looks.first_add, watch_append_of_ended through]
    exact through

/-- The stream of the function in `pairRegistry`. -/
def pairStream : Stream := .ofList [.int 1, .int 2]

/-- A look once a millisecond. -/
def eachMillisecond : Schedule Look := fun now => ⟨false, now⟩

open Drive in
/-- A call of that function under way, as it runs on in `pairMoves` and as it would be looked at once a
millisecond; a stream that goes on behind its end is sent alike. -/
theorem stream_sent_pair :
    ∃ m n : Machine Unit, ∃ t : Ticket,
      (init pairRegistry).after? (pairMoves.take 3) = some m ∧
        m.Drives (.task 0) t (start pairStream 0) ∧ m.after? (pairMoves.drop 3) = some n ∧
      n.repliesTo 0 = ((start pairStream 0).watch t (m.looks t (.task 0) (pairMoves.drop 3))).1 ∧
      (n.repliesTo 0).length = 2 ∧ ReplyStream 3 "t" (.function "pair") (n.repliesTo 0) ∧
      (∃ j, ∀ i, j ≤ i → ((start pairStream 0).watch t (eachMillisecond.first i)).2 = none) ∧
      ((start (.ofPulls #[.value 0 (.int 1), .value 0 (.int 2), .finished] .never) 0).watch t
          (m.looks t (.task 0) (pairMoves.drop 3))).1 =
        n.repliesTo 0 := by
  obtain ⟨m, start, drives, silent⟩ : ∃ m : Machine Unit,
      (init pairRegistry).after? (pairMoves.take 3) = some m ∧
        m.Drives (.task 0) ⟨0, 3, "t", .function "pair", 0⟩ (Drive.start pairStream 0) ∧
        m.repliesTo 0 = [] := ⟨_, rfl, rfl, rfl⟩
  obtain ⟨n, run, two⟩ : ∃ n : Machine Unit, m.after? (pairMoves.drop 3) = some n ∧
      (n.repliesTo 0).length = 2 := by
    cases start
    exact ⟨_, rfl, rfl⟩
  have history := (History.start pairRegistry).after start
  obtain ⟨sent, unread, through, driven⟩ :=
    stream_sent (σ := Unit) pairStream ⟨0, 3, "t", .function "pair", 0⟩ rfl 0
  have replies := driven _ m n (.task 0) _ history drives run
  rw [silent, List.nil_append] at replies
  have fair : Fair eachMillisecond := fun time n =>
    ⟨max n time, Nat.le_max_left n time, Nat.le_max_right n time⟩
  have ends : pairStream.EndsAt 2 := .inl rfl
  have there : ∀ i ≤ 2, (pairStream.element? i).isSome := by decide
  have same : ∀ i ≤ 2, (Stream.ofPulls #[.value 0 (.int 1), .value 0 (.int 2), .finished]
      .never).pull i = pairStream.pull i := by
    intro i inside
    match i, inside with
    | 0, _ | 1, _ | 2, _ => rfl
  refine ⟨m, n, _, start, drives, run, replies, two, ?_, through _ (.inl ⟨fair, 2, ends, there⟩),
    (unread _ 2 ends same _).2.1.trans replies.symm⟩
  rw [replies]
  exact (sent _).2 (by rw [← replies, two]; decide)

end Patchbay.Machine
