import Patchbay.Proofs.Machine.Deletion

/-!
# Calls in line

The calls on an instance stand in line in the order in which the machine took their requests. Those
in front of the line have been begun or refused, the others wait; the one that is being served is the
last of those in front. So a call is served only when every call before it has its last reply, and
the replies to the calls of one instance are in the order of its line.
-/

namespace Patchbay

variable {σ : Type}

namespace Occurrence

/-- The call that is queued on an instance. -/
def call? (id : Nat) : Occurrence σ → Option MethodCall
  | queued other call => if other = id then some call else none
  | _ => none

end Occurrence

/-- The calls that were queued on an instance, in order. -/
def callsOn (id : Nat) (es : List (Occurrence σ)) : List MethodCall :=
  es.filterMap (Occurrence.call? id)

@[simp] theorem callsOn_append (id : Nat) (es fs : List (Occurrence σ)) :
    callsOn id (es ++ fs) = callsOn id es ++ callsOn id fs := List.filterMap_append

theorem mem_callsOn {id : Nat} {es : List (Occurrence σ)} {call : MethodCall} :
    call ∈ callsOn id es ↔ .queued id call ∈ es := by
  simp only [callsOn, List.mem_filterMap]
  constructor
  · rintro ⟨o, member, queued⟩
    cases o with
    | queued other made =>
      simp only [Occurrence.call?] at queued
      split at queued
      · next same =>
        cases queued
        exact same ▸ member
      · cases queued
    | _ => cases queued
  · intro member
    exact ⟨_, member, by simp [Occurrence.call?]⟩

/-- Calls are queued on an instance only. -/
theorem callsOn_eq_nil {id : Nat} {es : List (Occurrence σ)}
    (silent : ∀ call, .queued id call ∉ es) : callsOn id es = [] := by
  apply List.eq_nil_iff_forall_not_mem.2
  intro call member
  exact silent call (mem_callsOn.1 member)

/-- The call whose body comes next. -/
def Instance.begun (i : Instance σ) : List MethodCall :=
  match i.phase with
  | .begun call _ => [call]
  | _ => []

/-- The calls that were begun on an instance: those whose bodies ran, and the one whose body comes
next. -/
def startedOn (es : List (Occurrence σ)) (id : Nat) (i : Instance σ) : List MethodCall :=
  (bodies id es).map Prod.fst ++ i.begun

/-- The ticket of the call that was begun and is not answered yet. -/
def Phase.serving? : Phase σ → Option Ticket
  | .begun call _ => some call.ticket
  | .driving t _ => some t
  | _ => none

/-! ## Moving up -/

/-- A move of an instance begins or refuses the first waiting call, or none. -/
theorem InstanceStep.moves_up {closed : Bool} {i next : Instance σ} {rs : List Reply}
    (step : InstanceStep closed i rs next) (id : Nat) :
    ∃ gone fresh, i.waiting = gone ++ next.waiting ∧ fresh.Sublist gone ∧
      (bodies id (i.effects id)).map Prod.fst ++ next.begun = i.begun ++ fresh ∧
      ∀ t, next.phase.serving? = some t →
        (∃ call, gone = [call] ∧ call.ticket.serial = t.serial) ∨
          gone = [] ∧ ∃ u, i.phase.serving? = some u ∧ u.serial = t.serial := by
  cases step with
  | close phase | resume phase | reopen phase | tearDown phase | finish phase =>
    refine ⟨[], [], ?_, .slnil, ?_, by simp [Phase.serving?]⟩
    · simp [Instance.waiting, phase]
    · simp_all [Instance.begun, Instance.effects, bodies, Occurrence.body?]
  | take phase isOpen queue =>
    refine ⟨[], [], ?_, .slnil, ?_, by simp [Phase.serving?]⟩
    · simp [Instance.waiting, phase, queue]
    · simp [Instance.begun, Instance.effects, phase, bodies]
  | @refuse call f phase =>
    refine ⟨[call], [], ?_, List.nil_sublist _, ?_, by simp [Phase.serving?]⟩
    · simp [Instance.waiting, phase]
    · simp [Instance.begun, Instance.effects, phase, bodies]
  | @start call method phase isOpen =>
    refine ⟨[call], [call], ?_, List.Sublist.refl _, ?_, ?_⟩
    · simp [Instance.waiting, phase]
    · simp [Instance.begun, Instance.effects, phase, bodies]
    · intro t serving
      cases serving
      exact .inl ⟨call, rfl, rfl⟩
  | answer phase last =>
    refine ⟨[], [], ?_, .slnil, ?_, by simp [Phase.serving?]⟩
    · simp [Instance.waiting, phase]
    · simp [Instance.begun, Instance.effects, phase, bodies, Occurrence.body?]
  | @stream call method s now phase =>
    refine ⟨[], [], ?_, .slnil, ?_, ?_⟩
    · simp [Instance.waiting, phase]
    · simp [Instance.begun, Instance.effects, phase, bodies, Occurrence.body?]
    · intro t serving
      cases serving
      exact .inr ⟨rfl, call.ticket, by rw [phase]; rfl, rfl⟩
  | @drive t next d e rs phase paid found =>
    refine ⟨[], [], ?_, .slnil, ?_, ?_⟩
    · simp [Instance.waiting, phase]
    · simp [Instance.begun, Instance.effects, phase, bodies]
    · intro u serving
      cases serving
      have same : next.serial = t.serial := paid.serial.2 next (Multiset.mem_singleton_self next)
      exact .inr ⟨rfl, t, by rw [phase]; rfl, same.symm⟩
  | @drain call rest phase queue =>
    refine ⟨[call], [], ?_, List.nil_sublist _, ?_, by simp [Phase.serving?]⟩
    · simp [Instance.waiting, phase, queue]
    · simp [Instance.begun, Instance.effects, phase, queue, bodies]

/-- How an instance stands to its line: the calls of `front` have left it, in order, and the others
wait. -/
structure InLine (es : List (Occurrence σ)) (id : Nat) (i : Instance σ) (front : List MethodCall) :
    Prop where
  line : callsOn id es = front ++ i.waiting
  started : (startedOn es id i).Sublist front
  serving : ∀ t, i.phase.serving? = some t → ∃ ahead call, front = ahead ++ [call] ∧
    call.ticket.serial = t.serial

theorem InLine.moves_up {closed : Bool} {es : List (Occurrence σ)} {id : Nat} {i next : Instance σ}
    {rs : List Reply} {front : List MethodCall} (h : InLine es id i front)
    (step : InstanceStep closed i rs next) {fs : List (Occurrence σ)} (uncalled : callsOn id fs = [])
    (effects : bodies id fs = bodies id (i.effects id)) :
    ∃ front, InLine (es ++ fs) id next front := by
  obtain ⟨gone, fresh, waiting, sublist, begun, serving⟩ := step.moves_up id
  refine ⟨front ++ gone, ?_, ?_, fun t now => ?_⟩
  · rw [callsOn_append, uncalled, List.append_nil, h.line, waiting, List.append_assoc]
  · have started : startedOn (es ++ fs) id next = startedOn es id i ++ fresh := by
      simp only [startedOn, bodies_append, List.map_append, List.append_assoc, effects, begun]
    rw [started]
    exact h.started.append sublist
  · rcases serving t now with ⟨call, rfl, serial⟩ | ⟨rfl, u, before, serial⟩
    · exact ⟨front, call, rfl, serial⟩
    · obtain ⟨ahead, call, rfl, number⟩ := h.serving u before
      exact ⟨ahead, call, List.append_nil _, number.trans serial⟩

namespace Machine

variable {registry : Registry σ} {m k n : Machine σ} {l : Move} {es : List (Occurrence σ)}
  {id : Nat} {i : Instance σ} {a b call : MethodCall}

theorem callsOn_occurrences (m : Machine σ) (l : Move) (k : Machine σ) (id : Nat) :
    callsOn id (m.occurrences l k) = callsOn id (m.effects l) := by
  have asked : callsOn id (l.asked.map Occurrence.took : List (Occurrence σ)) = [] :=
    callsOn_eq_nil (by simp)
  have sent (rs : List Reply) : callsOn id (rs.map Occurrence.sent : List (Occurrence σ)) = [] :=
    callsOn_eq_nil (by simp)
  rw [occurrences, callsOn_append, callsOn_append, asked, sent, List.nil_append, List.append_nil]

theorem Run.inLine (run : Run (init registry) es m) (found : Table.find? m.instances id = some i) :
    ∃ front, InLine es id i front := by
  refine Run.instance_induction (P := fun es _ id i => ∃ front, InLine es id i front)
    ?_ ?_ ?_ run found
  · intro es n k l id name component before step absent effects
    have fresh : ∀ o ∈ es, o.instance? ≠ some id := by
      intro o member touches
      obtain ⟨x, there⟩ := before.known member touches
      rw [absent] at there
      cases there
    refine ⟨[], ?_, ?_, by simp [newborn, Phase.serving?]⟩
    · rw [callsOn_append, callsOn_occurrences, effects,
        callsOn_eq_nil fun call member => fresh _ member rfl]
      rfl
    · rw [startedOn, bodies_append, bodies_occurrences, effects, bodies_eq_nil fresh]
      exact .slnil
  · intro es n k l id i j before step there ih shift
    obtain ⟨front, line⟩ := ih
    cases shift with
    | rest others silent =>
      refine ⟨front, ?_, ?_, line.serving⟩
      · rw [callsOn_append, callsOn_occurrences, callsOn_eq_nil fun call member =>
          silent _ member rfl, List.append_nil, line.line]
      · rw [startedOn, bodies_append, bodies_occurrences, bodies_eq_nil silent, List.append_nil]
        exact line.started
    | mark asks named effects =>
      refine ⟨front, ?_, ?_, line.serving⟩
      · rw [callsOn_append, callsOn_occurrences, effects]
        exact (List.append_nil _).trans line.line
      · rw [startedOn, bodies_append, bodies_occurrences, effects]
        exact (List.append_nil (bodies id es)).symm ▸ line.started
    | @queue name call asks named accepts serial replies effects =>
      have one : callsOn id [Occurrence.queued (σ := σ) id call] = [call] := by
        simp [callsOn, Occurrence.call?]
      refine ⟨front, ?_, ?_, line.serving⟩
      · rw [callsOn_append, callsOn_occurrences, effects, one, Instance.waiting_queue, line.line,
          List.append_assoc]
      · rw [startedOn, bodies_append, bodies_occurrences, effects]
        exact (List.append_nil (bodies id es)).symm ▸ line.started
    | work moves worked replies effects =>
      refine line.moves_up worked ?_ ?_
      · rw [callsOn_occurrences, effects]
        exact callsOn_eq_nil (by simp [Instance.mem_effects])
      · rw [bodies_occurrences, effects]
  · intro es n id i other ih
    exact ih

/-! ## The order of requests -/

/-- A call is queued as it is asked for, on the instance that has the name. -/
theorem queued_request (new : .queued id call ∈ m.effects l) :
    ∃ origin name packet, l = .request (.execute origin (.method name call.method) packet) ∧
      Table.find? m.live name = some id ∧
      call = ⟨.issue m.serial origin (.method name call.method) packet, call.method,
        packet.args⟩ := by
  cases l with
  | request r =>
    cases r with
    | cancel => simp [effects, requestEffects] at new
    | execute origin target packet =>
      cases target with
      | method name method =>
        simp only [effects, requestEffects] at new
        split at new
        · next id' i known =>
          split at new
          · obtain ⟨rfl, rfl⟩ := Occurrence.queued.inj (List.mem_singleton.1 new)
            obtain ⟨live, named, there⟩ := Option.bind_eq_some_iff.1 known
            obtain ⟨x, -, same⟩ := Option.map_eq_some_iff.1 there
            cases same
            exact ⟨origin, name, packet, rfl, named, rfl⟩
          · cases new
        · cases new
      | componentType type =>
        simp only [effects, requestEffects] at new
        split at new <;> simp at new
      | function | component => simp [effects, requestEffects] at new
  | «instance» other now =>
    simp only [effects] at new
    cases there : Table.find? m.instances other with
    | none => simp [there] at new
    | some x => simp [there, Instance.mem_effects] at new
  | _ => cases new

theorem callsOn_effects_length (step : m.move? l = some k) (id : Nat) :
    (callsOn id (m.effects l)).length ≤ 1 :=
  (List.length_filterMap_le _ _).trans (move_change step).length_le_one

/-- The line of an instance is in the order in which the calls were taken. -/
theorem Run.line_sorted (run : Run (init registry) es m) (id : Nat) :
    (callsOn id es).Pairwise (fun a b => a.ticket.serial < b.ticket.serial) ∧
      ∀ call ∈ callsOn id es, call.ticket.serial < m.serial := by
  induction run with
  | refl => simp [callsOn]
  | @move es n k l before step ih =>
    obtain ⟨sorted, below⟩ := ih
    have few := callsOn_effects_length step id
    have new {call : MethodCall} (member : call ∈ callsOn id (n.effects l)) :
        call.ticket.serial = n.serial ∧ n.serial < k.serial := by
      obtain ⟨origin, name, packet, rfl, -, made⟩ := queued_request (mem_callsOn.1 member)
      have next : k.serial = n.serial + 1 := (move_moved step).serial
      exact ⟨congrArg (·.ticket.serial) made, by omega⟩
    have later : n.serial ≤ k.serial := by
      rw [(move_moved step).serial]
      omega
    rw [callsOn_append, callsOn_occurrences]
    refine ⟨List.pairwise_append.2 ⟨sorted, ?_, fun a old b added => ?_⟩, fun call member => ?_⟩
    · cases line : callsOn id (n.effects l) with
      | nil => exact List.Pairwise.nil
      | cons first rest =>
        rw [line, List.length_cons] at few
        obtain rfl : rest = [] := List.eq_nil_of_length_eq_zero (by omega)
        exact List.pairwise_singleton _ _
    · rw [(new added).1]
      exact below a old
    · rcases List.mem_append.1 member with old | added
      · exact Nat.lt_of_lt_of_le (below call old) later
      · obtain ⟨number, now⟩ := new added
        omega
  | exchange other before ih => exact ih

theorem Run.front_lt_waiting (run : Run (init registry) es m) {front : List MethodCall}
    (line : InLine es id i front) (ahead : a ∈ front) (waits : b ∈ i.waiting) :
    a.ticket.serial < b.ticket.serial := by
  have sorted := (run.line_sorted id).1
  rw [line.line, List.pairwise_append] at sorted
  exact sorted.2.2 a ahead b waits

/-- The call that is being served is the last that left the line. -/
theorem Run.front_le_serving (run : Run (init registry) es m) {front : List MethodCall}
    (line : InLine es id i front) (ahead : a ∈ front) {t : Ticket}
    (serving : i.phase.serving? = some t) : a.ticket.serial ≤ t.serial := by
  have sorted := (run.line_sorted id).1
  obtain ⟨early, last, rfl, number⟩ := line.serving t serving
  rw [line.line, List.append_assoc, List.pairwise_append] at sorted
  rcases List.mem_append.1 ahead with earlier | here
  · have := sorted.2.2 a earlier last (by simp)
    omega
  · rw [List.mem_singleton.1 here, number]

theorem Shift.name {j : Instance σ} {fs : List (Occurrence σ)} (shift : Shift m l k id i fs j) :
    j.name = i.name := by
  cases shift with
  | work moves worked => exact worked.name
  | _ => rfl

/-- The calls on an instance are the requests of their numbers, each for the name of the instance. -/
theorem Run.line_taken (run : Run (init registry) es m)
    (found : Table.find? m.instances id = some i) (member : call ∈ callsOn id es) :
    ∃ origin packet,
      (requestsIn es)[call.ticket.serial]? =
        some (.execute origin (.method i.name call.method) packet) ∧
      call = ⟨.issue call.ticket.serial origin (.method i.name call.method) packet, call.method,
        packet.args⟩ := by
  revert call
  refine Run.instance_induction (P := fun es m id i => ∀ {call : MethodCall}, call ∈ callsOn id es →
    ∃ origin packet, (requestsIn es)[call.ticket.serial]? =
        some (.execute origin (.method i.name call.method) packet) ∧
      call = ⟨.issue call.ticket.serial origin (.method i.name call.method) packet, call.method,
        packet.args⟩) ?_ ?_ ?_ run found
  · intro es n k l id name component before step absent effects call member
    rcases List.mem_append.1 (callsOn_append id es _ ▸ member) with old | new
    · obtain ⟨x, there⟩ := before.known (mem_callsOn.1 old) rfl
      rw [absent] at there
      cases there
    · rw [callsOn_occurrences, effects] at new
      cases new
  · intro es n k l id i j before step there ih shift call member
    rw [shift.name]
    rcases List.mem_append.1 (callsOn_append id es _ ▸ member) with old | new
    · obtain ⟨origin, packet, asked, made⟩ := ih old
      exact ⟨origin, packet, requestsIn_of_append asked _, made⟩
    · rw [callsOn_occurrences] at new
      obtain ⟨origin, name, packet, rfl, named, made⟩ := queued_request (mem_callsOn.1 new)
      obtain ⟨x, here, called, -⟩ := before.named named
      cases here.symm.trans there
      have serial : call.ticket.serial = n.serial := congrArg (·.ticket.serial) made
      rw [serial, called]
      refine ⟨origin, packet, ?_, made⟩
      have now := requestsIn_occurrences (move_change step)
      unfold requestsIn at now ⊢
      have number := before.orderly.number
      unfold requestsIn at number
      rw [List.filterMap_append, now, ← number]
      exact List.getElem?_concat_length
  · intro es n id i other ih
    exact ih

/-! ## Served one after the other -/

/-- Nothing is said to a call that waits. -/
theorem Run.silent_waiting (run : Run (init registry) es m)
    (found : Table.find? m.instances id = some i) (waits : call ∈ i.waiting) :
    m.repliesTo call.ticket.serial = [] := by
  obtain ⟨front, line⟩ := run.inLine found
  have queued : .queued id call ∈ es := by
    rw [← mem_callsOn, line.line]
    exact List.mem_append_right _ waits
  rcases run.stage found queued with ⟨method, started⟩ | unstarted
  · have member : call ∈ startedOn es id i := by
      rcases started with ran | begun
      · apply List.mem_append_left
        exact List.mem_map.2 ⟨(call, method),
          List.mem_filterMap.2 ⟨_, ran, by simp [Occurrence.body?]⟩, rfl⟩
      · apply List.mem_append_right
        simp [Instance.begun, begun]
    have ahead := line.started.subset member
    exact absurd (run.front_lt_waiting line ahead waits) (Nat.lt_irrefl _)
  · rcases unstarted.stands with ⟨-, silent⟩ | ⟨f, refused⟩
    · exact silent
    · obtain ⟨origin, target, packet, asked⟩ := run.owed queued
      have last : (call.ticket.fail f).packet.isTerminal = true := by
        simp [Ticket.fail, Ticket.reply]
      have held : call.ticket ∈ m.heldAt (.instance id) := by
        rw [heldAt_instance found]
        exact Instance.held_of_waiting waits
      exact absurd rfl (run.orderly.released asked (refused ▸ List.mem_singleton_self _) last _
        (Multiset.mem_of_le (m.heldAt_le _) held))

/-- Nothing is said to a call before its body ran. -/
theorem Run.silent_begun (run : Run (init registry) es m)
    (found : Table.find? m.instances id = some i) {method : Method σ}
    (begun : i.phase = .begun call method) : m.repliesTo call.ticket.serial = [] := by
  revert call method
  refine Run.instance_induction (P := fun _ m _ i => ∀ {call : MethodCall} {method : Method σ},
    i.phase = .begun call method → m.repliesTo call.ticket.serial = []) ?_ ?_ ?_ run found
  · intro es n k l id name component before step absent effects call method begun
    cases begun
  · intro es n k l id i j before step there ih shift call method begun
    have quiet (same : i.phase = .begun call method) (other : l.holder? ≠ some (.instance id)) :
        k.repliesTo call.ticket.serial = [] :=
      (repliesTo_of_other before.orderly (heldAt_of_begun there same) other step).trans (ih same)
    cases shift with
    | rest others silent => exact quiet begun others
    | mark asks named effects => exact quiet begun (by simp [asks])
    | queue asks named accepts serial replies effects => exact quiet begun (by simp [asks])
    | work moves worked replies effects =>
      cases worked with
      | start phase isOpen =>
        cases begun
        rw [repliesTo, replies, List.append_nil]
        exact before.silent_waiting there (by simp [Instance.waiting, phase])
      | _ => cases begun
  · intro es n id i other ih
    exact ih

/-- When a call no longer waits, every call before it has its last reply. -/
theorem Run.answered_before (run : Run (init registry) es m)
    (found : Table.find? m.instances id = some i) (first : a ∈ callsOn id es)
    (second : b ∈ callsOn id es) (order : a.ticket.serial < b.ticket.serial)
    (left : b ∉ i.waiting) :
    ∃ r ∈ m.repliesTo a.ticket.serial, r.packet.isTerminal = true := by
  refine (run.settled found (mem_callsOn.1 first)).resolve_left ?_
  rintro ⟨t, held, serial⟩
  obtain ⟨front, line⟩ := run.inLine found
  have ahead : b ∈ front := by
    rw [line.line] at second
    exact (List.mem_append.1 second).resolve_right left
  have late (t : Ticket) (serving : i.phase.serving? = some t) :
      b.ticket.serial ≤ t.serial := run.front_le_serving line ahead serving
  have behind (call : MethodCall) (waits : call ∈ i.waiting) :
      b.ticket.serial < call.ticket.serial := run.front_lt_waiting line ahead waits
  rcases mem_heldInstance.1 held with current | ⟨call, queued, rfl⟩
  · cases phase : i.phase with
    | taken call =>
      rw [phase] at current
      cases current
      have := behind call (by simp [Instance.waiting, phase])
      omega
    | begun call method =>
      rw [phase] at current
      cases current
      have := late call.ticket (by rw [phase]; rfl)
      omega
    | driving u d =>
      rw [phase] at current
      cases current
      have := late t (by rw [phase]; rfl)
      omega
    | _ => simp [phase, Phase.ticket?] at current
  · have waits : call ∈ i.waiting := by
      unfold Instance.waiting
      split
      · exact List.mem_cons_of_mem _ queued
      · exact queued
    have := behind call waits
    omega

/-! ## Replies in line -/

/-- One move replies to one request at most. -/
theorem replies_of_one (tidy : m.Tidy m.serial) (step : m.move? l = some k) :
    ∃ rs number, k.replies = m.replies ++ rs ∧ ∀ r ∈ rs, r.serial = number := by
  have alike {rs : List Reply} (replies : k.replies = m.replies ++ rs) {held left : Multiset Ticket}
      (paid : Pays held rs left) :
      ∃ rs number, k.replies = m.replies ++ rs ∧ ∀ r ∈ rs, r.serial = number := by
    cases paid with
    | nothing => exact ⟨[], 0, replies, by simp⟩
    | spend paid others => exact ⟨rs, _, replies, paid.serial.1⟩
  have moved := move_moved step
  generalize l.asked = asked at moved
  cases moved with
  | execute move =>
    obtain ⟨rs, replies, serial⟩ := move.replies
    exact ⟨rs, _, replies, serial⟩
  | @cancel _ _ _ r serial => exact ⟨[r], m.serial, rfl, by simp [serial]⟩
  | upkeep known => exact ⟨[], 0, (List.append_nil _).symm, by simp⟩
  | task move =>
    obtain ⟨rs, paid, replies⟩ := move.pays tidy
    exact alike replies paid
  | «instance» move =>
    obtain ⟨rs, paid, replies⟩ := move.pays
    exact alike replies paid
  | waiter move =>
    obtain ⟨rs, paid, replies⟩ := move.pays tidy
    exact alike replies paid

/-- The replies to the calls on an instance come in the order of its line: those to one call are
behind those to every call before it. -/
theorem Run.replies_in_line (run : Run (init registry) es m) (id : Nat) :
    m.replies.Pairwise fun r s => ∀ a ∈ callsOn id es, ∀ b ∈ callsOn id es,
      a.ticket.serial = r.serial → b.ticket.serial = s.serial → r.serial ≤ s.serial := by
  induction run with
  | refl => exact List.Pairwise.nil
  | @move es n k l before step ih =>
    obtain ⟨rs, number, replies, alike⟩ := replies_of_one before.orderly.tidy step
    have replied {r : Reply} (sent : r ∈ n.replies) : r.serial < n.serial := by
      have below := before.orderly.sound.replied r sent
      have count := before.orderly.number
      simp only [ledger] at below
      omega
    have old {c : MethodCall} (member : c ∈ callsOn id (es ++ n.occurrences l k))
        (taken : c.ticket.serial < n.serial) : c ∈ callsOn id es := by
      rw [callsOn_append, callsOn_occurrences] at member
      refine (List.mem_append.1 member).resolve_right fun new => ?_
      obtain ⟨_, _, _, -, -, made⟩ := queued_request (mem_callsOn.1 new)
      have serial : c.ticket.serial = n.serial := congrArg (·.ticket.serial) made
      omega
    rw [replies, List.pairwise_append]
    refine ⟨?_, ?_, fun r sent s new a first b second here there => ?_⟩
    · refine ih.imp_of_mem fun {r s} sent also order a first b second here there => ?_
      have above := replied sent
      have below := replied also
      exact order a (old first (by omega)) b (old second (by omega)) here there
    · refine List.pairwise_of_forall_mem_list ?_
      intro r member s other a first b second here there
      rw [alike r member, alike s other]
    · by_contra late
      have above := replied sent
      have earlier := old first (by omega)
      have known := old second (by omega)
      obtain ⟨i, found⟩ := before.known (mem_callsOn.1 earlier) rfl
      have left : a ∉ i.waiting := by
        intro waits
        have silent := before.silent_waiting found waits
        have one : r ∈ n.repliesTo a.ticket.serial := List.mem_filter.2 ⟨sent, by simp [here]⟩
        rw [silent] at one
        cases one
      obtain ⟨last, answered, terminal⟩ :=
        before.answered_before found known earlier (by omega) left
      obtain ⟨_, _, _, asked⟩ := before.owed (mem_callsOn.1 known)
      have same := repliesTo_of_terminal before.orderly asked answered terminal step
      rw [there] at same
      exact repliesTo_of_new step (by rw [replies, List.drop_left]; exact new) same
  | exchange other before ih => exact ih

end Machine

end Patchbay
