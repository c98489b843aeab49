import Patchbay.Proofs.Machine.Endings

/-!
# Cancelled calls

A cancel that is answered with success does not always end its call as cancelled. The call may have been
answered, with a notice of that still under way; its component may have no method of its name; its body
may have begun, or the end of its stream been found. In every other case the last reply to the call
is that it was cancelled, and in every case it is what was decided when the cancel was taken.
-/

namespace Patchbay

variable {σ : Type}

/-- A ticket pays for one last reply. -/
theorem Ticket.Spend.last_unique {t : Ticket} {rs : List Reply} {left : Multiset Ticket}
    (paid : t.Spend rs left) {r s : Reply} (first : r ∈ rs) (ends : r.packet.isTerminal = true)
    (second : s ∈ rs) (also : s.packet.isTerminal = true) : r = s := by
  have output {vs : List Value} {r : Reply} (ends : r.packet.isTerminal = true) :
      r ∉ t.outputs vs := by
    intro sent
    obtain ⟨i, here⟩ := List.getElem?_of_mem sent
    rw [(outputs_spec here).2.2.1] at ends
    cases ends
  cases paid with
  | partials vs => exact absurd first (output ends)
  | ending vs last =>
    have one := (List.mem_append.1 first).resolve_left (output ends)
    have other := (List.mem_append.1 second).resolve_left (output also)
    exact (List.mem_singleton.1 one).trans (List.mem_singleton.1 other).symm

namespace Machine

variable {registry : Registry σ} {m k n : Machine σ} {l : Move} {later : List (Occurrence σ)}
  {call : Call} {result : Except Fault Value}

/-! ## Calls and requests -/

/-- A call that is taken on is the execute that is taken. -/
theorem asked_of_taken {log : List CallEvent} (new : m.callEvent? log l = some (.taken call)) :
    call.serial = m.serial ∧
      ∃ origin target packet, l = .request (.execute origin target packet) := by
  cases l with
  | request r =>
    cases r with
    | cancel origin tx => cases new
    | execute origin target packet =>
      refine ⟨?_, origin, target, packet, rfl⟩
      cases target with
      | function name =>
        obtain ⟨op, -, made⟩ := Option.map_eq_some_iff.1 new
        cases made
        rfl
      | componentType type => cases new
      | component name =>
        obtain ⟨id, -, made⟩ := Option.map_eq_some_iff.1 new
        cases made
      | method name method =>
        obtain ⟨entry, -, made⟩ := Option.map_eq_some_iff.1 new
        dsimp only at made
        split at made
        · cases made
          rfl
        · cases made
  | trip | stop | halt | waiter => cases new
  | notice =>
    obtain ⟨c, -, made⟩ := Option.map_eq_some_iff.1 new
    cases made
  | task id now =>
    obtain ⟨task, -, made⟩ := Option.bind_eq_some_iff.1 new
    split at made <;> cases made
  | «instance» id now =>
    obtain ⟨i, -, made⟩ := Option.bind_eq_some_iff.1 new
    split at made
    · obtain ⟨c, -, made⟩ := Option.map_eq_some_iff.1 made
      cases made
    · cases made

/-- A call that was taken on is the execute of its number. -/
theorem CallRun.asked {log : List CallEvent} (run : CallRun registry log m) :
    ∃ es, Run (init registry) es m ∧ ∀ call, .taken call ∈ log →
      ∃ origin target packet,
        (requestsIn es)[call.serial]? = some (.execute origin target packet) := by
  induction run with
  | start => exact ⟨[], .refl, by simp⟩
  | @move log m k l before step ih =>
    obtain ⟨es, run, asked⟩ := ih
    refine ⟨_, run.move l step, fun call taken => ?_⟩
    rcases List.mem_append.1 taken with old | new
    · obtain ⟨origin, target, packet, handled⟩ := asked call old
      exact ⟨origin, target, packet, requestsIn_of_append handled _⟩
    · obtain ⟨serial, origin, target, packet, rfl⟩ := asked_of_taken (Option.mem_toList.1 new)
      refine ⟨origin, target, packet, ?_⟩
      have now := requestsIn_occurrences (move_change step)
      unfold requestsIn at now ⊢
      rw [List.filterMap_append, now, serial, ← run.orderly.number]
      exact List.getElem?_concat_length
  | exchange other before ih =>
    obtain ⟨es, run, asked⟩ := ih
    exact ⟨es, run.exchange other, asked⟩

/-- An execute has one last reply. -/
theorem Orderly.last_unique {asked : List Request} (orderly : m.Orderly asked) {serial : Nat}
    {origin : ClientId} {target : Target} {packet : Packet}
    (handled : asked[serial]? = some (.execute origin target packet)) {r s : Reply}
    (first : r ∈ m.repliesTo serial) (ends : r.packet.isTerminal = true)
    (second : s ∈ m.repliesTo serial) (also : s.packet.isTerminal = true) : r = s := by
  have paid := orderly.sound.spent serial origin target packet handled
  exact paid.last_unique first ends second also

theorem finish_terminal (t : Ticket) (result : Except Fault Value) :
    (t.finish result).packet.isTerminal = true := (t.finish_last result).spec.2.2.1

/-- No other fault is told like a cancellation. -/
theorem finish_cancelled_iff (t : Ticket) (result : Except Fault Value) :
    (t.finish result).packet.failure? = some ⟨"Cancelled", "Transaction cancelled"⟩ ↔
      result = .error .cancelled := by
  cases result with
  | ok v => simp [Ticket.finish, Ticket.done, Ticket.reply]
  | error f =>
    have told : (t.finish (.error f)).packet.failure? = some ⟨f.code, f.message⟩ :=
      Packet.outputFault_failure? t.tx t.sequence f
    rw [told]
    constructor
    · intro same
      have code : f.code = "Cancelled" := congrArg Remote.code (Option.some.inj same)
      cases f <;> simp [Fault.code] at code
      rfl
    · intro same
      cases same
      rfl

/-- Of a call that was not answered it is decided what it ends with. -/
theorem Kept.decided {log : List CallEvent} (kept : Kept log m) (tidy : m.Tidy m.serial)
    (taken : .taken call ∈ log) : Answered m.replies call ∨ ∃ result, m.EndsWith call result := by
  by_cases told : .told call ∈ log
  · exact .inl (kept.placed.answered call told)
  · cases host : call.host with
    | none =>
      have here : call ∈ untold log none := mem_untold.2 ⟨taken, host, told⟩
      rw [kept.placed.tasks] at here
      obtain ⟨⟨id, t, w⟩, member, same⟩ := List.mem_map.1 here
      have own : t.serial = id := kept.placed.own _ member
      have serial : t.serial = call.serial := congrArg Call.serial same
      have found := Table.find?_of_mem tidy.tasks.unique member
      rw [← own, serial] at found
      cases w with
      | answered => exact .inl (same ▸ kept.placed.ended _ member rfl)
      | start op args => exact .inr ⟨_, .task host found serial rfl⟩
      | begun op args => exact .inr ⟨_, .task host found serial rfl⟩
      | drive d => exact .inr ⟨_, .task host found serial rfl⟩
    | some id =>
      have here : call ∈ untold log (some id) := mem_untold.2 ⟨taken, host, told⟩
      obtain ⟨i, found⟩ := kept.placed.hosted call id taken host
      obtain ⟨front, hand, line⟩ := kept.placed.lines id i found
      rw [line] at here
      rcases List.mem_append.1 here with ahead | queued
      · cases hand with
        | free => cases ahead
        | finished key answered =>
          rw [List.mem_singleton.1 ahead]
          exact .inl answered
        | @held t current =>
          have serial : t.serial = call.serial :=
            (congrArg Call.serial (List.mem_singleton.1 ahead)).symm
          refine .inr ?_
          cases phase : i.phase with
          | taken c =>
            rw [phase] at current
            cases current
            exact ⟨_, .instance host found (.taken phase serial)⟩
          | begun c method =>
            rw [phase] at current
            cases current
            exact ⟨_, .instance host found (.begun phase serial)⟩
          | driving u d =>
            rw [phase] at current
            cases current
            exact ⟨_, .instance host found (.driving phase serial)⟩
          | _ =>
            rw [phase] at current
            cases current
      · obtain ⟨c, member, same⟩ := List.mem_map.1 queued
        have serial : c.ticket.serial = call.serial := congrArg Call.serial same
        exact .inr ⟨_, .instance host found (.queued member serial)⟩

/-- A cancel that is answered with success trips the one call under its key. -/
theorem Kept.acknowledged {log : List CallEvent} (kept : Kept log m)
    (alone : ∀ c ∈ takenIn log, c.key = call.key → c = call)
    (cancel : m.move? (.request (.cancel call.key.1 call.key.2)) = some k)
    (success : k.replies = m.replies ++ [⟨m.serial, call.key.1, none, .respondOk call.key.2⟩]) :
    k = { m with
      serial := m.serial + 1
      tripped := call.serial :: m.tripped
      replies := m.replies ++ [⟨m.serial, call.key.1, none, .respondOk call.key.2⟩] } := by
  obtain rfl := handle_of_request cancel
  cases found : Table.find? m.inflight call.key with
  | none =>
    rw [handle_cancel_unknown found] at success
    have same := List.append_cancel_left success
    have body := congrArg (fun r : Reply => r.packet.body) (List.cons.inj same).1
    simp [Packet.respondFault, Packet.respondOk, Fault.body] at body
  | some number =>
    obtain ⟨c, current, key, rfl⟩ := kept.find?_inflight.1 found
    obtain rfl := alone c (mem_takenIn.2 current.mem) key
    exact handle_cancel_found found

/-! ## Main result -/

/-- What becomes of a call that was cancelled in `m`, by the time of `n`. -/
structure CancelledCall (m n : Machine σ) (call : Call) : Prop where
  /-- It was answered before, or else it was decided by then what it ends with; -/
  decided : Answered m.replies call ∨ ∃ result, m.EndsWith call result
  late : Answered m.replies call → n.repliesTo call.serial = m.repliesTo call.serial
  /-- and then its last reply says that. -/
  result : ∀ result, m.EndsWith call result → ∀ r ∈ n.repliesTo call.serial,
    r.packet.isTerminal = true → ∃ t : Ticket, t.serial = call.serial ∧ r = t.finish result
  /-- So its last reply is that it was cancelled when that was decided, and only then. -/
  cancelled_iff : ¬ Answered m.replies call → ∀ r ∈ n.repliesTo call.serial,
    r.packet.isTerminal = true →
      (r.packet.failure? = some ⟨"Cancelled", "Transaction cancelled"⟩ ↔
        m.EndsWith call (.error .cancelled))
  /-- It is answered within two moves of its task or instance once these serve it, which can move at any
  time; the moves of others do not touch it. -/
  served : ¬ Answered n.replies call → ∀ p, n.Served call p → p ≤ 2 ∧
    (∀ now, ∃ n', n.move? (call.move now) = some n' ∧
      (Answered n'.replies call ∨ ∃ q < p, n'.Served call q)) ∧
    ∀ l n', n.move? l = some n' → l.holder? ≠ some call.holder → n'.Served call p
  /-- Until then it is queued, and its instance can move unless a stream keeps it waiting. -/
  queued : ¬ Answered n.replies call → (∀ p, ¬ n.Served call p) →
    ∃ id i, call.host = some id ∧ Table.find? n.instances id = some i ∧
      (∃ c ∈ i.mailbox, c.ticket.serial = call.serial) ∧
      ∀ now, (∃ n', n.move? (.instance id now) = some n') ∨
        ∃ t d, i.phase = .driving t d ∧ d.found = none ∧ n.isCancelled t = false ∧
          d.arrived? now = none

/-- In every run, a cancel that is answered with success decides nothing: the call ends as it was decided
before, as long as neither the machine stops nor the component of the call is deleted. -/
theorem cancelled_call_ends {log : List CallEvent} (run : CallRun registry log m)
    (taken : .taken call ∈ log) (alone : ∀ c ∈ takenIn log, c.key = call.key → c = call)
    (cancel : m.move? (.request (.cancel call.key.1 call.key.2)) = some k)
    (success : k.replies = m.replies ++ [⟨m.serial, call.key.1, none, .respondOk call.key.2⟩])
    (since : Run k later n) (lasts : n.Lasts call) : CancelledCall m n call := by
  obtain ⟨past, prior, asked⟩ := run.asked
  obtain ⟨origin, target, packet, handled⟩ := asked call taken
  have kept := run.kept
  have decided := kept.decided prior.orderly.tidy taken
  have made := kept.acknowledged alone cancel success
  have tripped : call.serial ∈ k.tripped := made ▸ List.mem_cons_self
  obtain ⟨es, ever⟩ : ∃ es, Run m es n := ⟨_, (Run.refl.move _ cancel).trans since⟩
  have all := prior.trans ever
  have known := requestsIn_of_append handled es
  have standing {result : Except Fault Value} (ends : m.EndsWith call result) :
      n.EndedWith call result ∨ n.EndsWith call result := by
    refine EndsWith.run ?_ (prior.move _ cancel) tripped since lasts
    subst made
    cases ends with
    | task host found own decided => exact .task host found own decided
    | «instance» host found decided => exact .instance host found decided
  have result (result : Except Fault Value) (ends : m.EndsWith call result) (r : Reply)
      (sent : r ∈ n.repliesTo call.serial) (last : r.packet.isTerminal = true) :
      ∃ t : Ticket, t.serial = call.serial ∧ r = t.finish result := by
    rcases standing ends with ⟨t, own, said⟩ | unsaid
    · have also : t.finish result ∈ n.repliesTo call.serial :=
        List.mem_filter.2 ⟨said, by simp [(t.finish_last result).serial, own]⟩
      exact ⟨t, own, all.orderly.last_unique known sent last also (finish_terminal t result)⟩
    · obtain ⟨t, held, own⟩ := unsaid.held
      exact absurd own (all.orderly.released known sent last t held)
  have late (answered : Answered m.replies call) :
      n.repliesTo call.serial = m.repliesTo call.serial := by
    obtain ⟨r, sent, own, last⟩ := answered
    exact prior.repliesTo_of_last handled (List.mem_filter.2 ⟨sent, by simp [own]⟩) last ever
  have open' (unanswered : ¬ Answered n.replies call) : ∃ result, n.EndsWith call result := by
    rcases decided with answered | ⟨result, ends⟩
    · exact absurd (answered.mono (replies_subset ever)) unanswered
    · rcases standing ends with ⟨t, own, said⟩ | unsaid
      · exact absurd ⟨_, said, (t.finish_last result).serial.trans own, finish_terminal t result⟩
          unanswered
      · exact ⟨result, unsaid⟩
  constructor
  case decided => exact decided
  case late => exact late
  case result => exact result
  case cancelled_iff =>
    intro unanswered r sent last
    obtain ⟨end', ends⟩ := decided.resolve_left unanswered
    constructor
    · intro told
      obtain ⟨t, own, rfl⟩ := result end' ends r sent last
      exact (finish_cancelled_iff t end').1 told ▸ ends
    · intro cancelled
      obtain ⟨t, own, rfl⟩ := result _ cancelled r sent last
      exact (finish_cancelled_iff t _).2 rfl
  case served =>
    intro unanswered p served
    obtain ⟨end', ends⟩ := open' unanswered
    refine ⟨served.le, fun now => ?_, fun l n' step other => served.of_other all step other⟩
    obtain ⟨n', step, comes⟩ := ends.served all (tripped_subset since tripped) served now
    refine ⟨n', step, comes.imp_left ?_⟩
    rintro ⟨t, own, said⟩
    exact ⟨_, said, (t.finish_last end').serial.trans own, finish_terminal t end'⟩
  case queued =>
    intro unanswered unserved
    obtain ⟨end', ends⟩ := open' unanswered
    exact ends.queued all lasts unserved

/-- A call runs, and another one of a method is queued behind it. -/
def queueMoves (method : String) : List Move :=
  [.request (.execute 1 (.componentType "room") (.defineComponent "a" "room" "c" .null)),
    .request (.execute 1 (.method "c" "wait") (.callMethod "y" "c" "wait" .null)),
    .instance 0 0, .instance 0 0, .instance 0 0,
    .request (.execute 1 (.method "c" method) (.callMethod "x" "c" method .null))]

/-- The first call is cancelled too, and the second gets its turn. -/
def turnMoves : List Move :=
  [.request (.cancel 1 "y"), .instance 0 0, .instance 0 0, .instance 0 0, .instance 0 0]

/-- A queued call of a method that there is. -/
theorem cancelled_call_ends_queued :
    ∃ (log : List CallEvent) (m k n : Machine Unit) (later : List (Occurrence Unit)),
      CallRun waitRegistry log m ∧ .taken ⟨2, (1, "x"), some 0⟩ ∈ log ∧
      (∀ c ∈ takenIn log, c.key = (1, "x") → c = ⟨2, (1, "x"), some 0⟩) ∧
      m.move? (.request (.cancel 1 "x")) = some k ∧
      k.replies = m.replies ++ [⟨m.serial, 1, none, .respondOk "x"⟩] ∧ Run k later n ∧
      n.Lasts ⟨2, (1, "x"), some 0⟩ ∧
      (n.repliesTo 2).map (fun r => r.packet.failure?) =
        [some ⟨"Cancelled", "Transaction cancelled"⟩] ∧
      CancelledCall m n ⟨2, (1, "x"), some 0⟩ := by
  obtain ⟨log, m, k, n, made, taken, alone, cancel, success, turn, stopping, deleted, replies⟩ :
      ∃ (log : List CallEvent) (m k n : Machine Unit),
        (init waitRegistry).logAfter? [] (queueMoves "wait") = some (log, m) ∧
        .taken ⟨2, (1, "x"), some 0⟩ ∈ log ∧
        (∀ c ∈ takenIn log, c.key = (1, "x") → c = ⟨2, (1, "x"), some 0⟩) ∧
        m.move? (.request (.cancel 1 "x")) = some k ∧
        k.replies = m.replies ++ [⟨m.serial, 1, none, .respondOk "x"⟩] ∧
        k.after? turnMoves = some n ∧ n.stopping = false ∧
        (Table.find? n.instances 0).map Instance.deleted = some false ∧
        (n.repliesTo 2).map (fun r => r.packet.failure?) =
          [some ⟨"Cancelled", "Transaction cancelled"⟩] :=
    ⟨_, _, _, _, rfl, by decide, by decide, rfl, rfl, rfl, rfl, rfl, rfl⟩
  have run := CallRun.start.after made
  obtain ⟨later, since⟩ := run_of_after? turn
  have lasts : n.Lasts ⟨2, (1, "x"), some 0⟩ := by
    refine ⟨stopping, fun id i host found => ?_⟩
    cases host
    simpa [found] using deleted
  exact ⟨log, m, k, n, later, run, taken, alone, cancel, success, since, lasts, replies,
    cancelled_call_ends run taken alone cancel success since lasts⟩

/-- A queued call of a method that there is not: its cancel is answered with success, and its last reply
says something else. -/
theorem not_cancelled_unknown :
    ∃ (log : List CallEvent) (m k n : Machine Unit) (later : List (Occurrence Unit)),
      CallRun waitRegistry log m ∧ .taken ⟨2, (1, "x"), some 0⟩ ∈ log ∧
      (∀ c ∈ takenIn log, c.key = (1, "x") → c = ⟨2, (1, "x"), some 0⟩) ∧
      m.move? (.request (.cancel 1 "x")) = some k ∧
      k.replies = m.replies ++ [⟨m.serial, 1, none, .respondOk "x"⟩] ∧ Run k later n ∧
      n.Lasts ⟨2, (1, "x"), some 0⟩ ∧
      ∃ r ∈ n.repliesTo 2, r.packet.isTerminal = true ∧
        r.packet.failure? = some ⟨"NotFound", "No such method: c.none"⟩ ∧
        r.packet.failure? ≠ some ⟨"Cancelled", "Transaction cancelled"⟩ := by
  obtain ⟨log, m, k, n, r, made, taken, alone, cancel, success, turn, stopping, deleted, replies, last,
      failure⟩ :
      ∃ (log : List CallEvent) (m k n : Machine Unit) (r : Reply),
        (init waitRegistry).logAfter? [] (queueMoves "none") = some (log, m) ∧
        .taken ⟨2, (1, "x"), some 0⟩ ∈ log ∧
        (∀ c ∈ takenIn log, c.key = (1, "x") → c = ⟨2, (1, "x"), some 0⟩) ∧
        m.move? (.request (.cancel 1 "x")) = some k ∧
        k.replies = m.replies ++ [⟨m.serial, 1, none, .respondOk "x"⟩] ∧
        k.after? turnMoves = some n ∧ n.stopping = false ∧
        (Table.find? n.instances 0).map Instance.deleted = some false ∧
        n.repliesTo 2 = [r] ∧ r.packet.isTerminal = true ∧
        r.packet.failure? = some ⟨"NotFound", "No such method: c.none"⟩ :=
    ⟨_, _, _, _, _, rfl, by decide, by decide, rfl, rfl, rfl, rfl, rfl, rfl, rfl, rfl⟩
  have run := CallRun.start.after made
  obtain ⟨later, since⟩ := run_of_after? turn
  have lasts : n.Lasts ⟨2, (1, "x"), some 0⟩ := by
    refine ⟨stopping, fun id i host found => ?_⟩
    cases host
    simpa [found] using deleted
  refine ⟨log, m, k, n, later, run, taken, alone, cancel, success, since, lasts, r,
    replies ▸ List.mem_singleton_self r, last, failure, ?_⟩
  rw [failure]
  simp

end Machine

end Patchbay
