import Patchbay.Proofs.Machine.CallPlaces

/-!
# Cancelling

A cancel names a key, and trips the call that was last taken on under it. As long as no client starts a
call under a key under which an earlier one of its own is outstanding, this is the outstanding call,
and the table of calls in flight has an entry for each of these and no other. With keys used again it
need not be: the entry of a call is written over by the next one under its key, and taken away by the
notice of another.
-/

namespace Patchbay.Machine

variable {σ : Type} {registry : Registry σ} {m k : Machine σ} {es : List CallEvent} {call : Call}
  {id : Nat} {i : Instance σ} {t : Ticket}

/-! ## Tokens -/

/-- Whether a call is cancelled: with the machine, with its component, or by itself. -/
def tokenTripped (m : Machine σ) (call : Call) : Bool :=
  m.stopping || (call.host.any fun id => (Table.find? m.instances id).any Instance.deleted) ||
    m.tripped.contains call.serial

/-- This is what a task looks at, -/
theorem isCancelled_eq (m : Machine σ) (t : Ticket) :
    m.isCancelled t = m.tokenTripped (t.call none) := by
  simp [isCancelled, tokenTripped, Ticket.call]

/-- and an instance for the calls that it is given. -/
theorem isClosed_or_isCancelled (found : Table.find? m.instances id = some i) (t : Ticket) :
    (m.isClosed i || m.isCancelled t) = m.tokenTripped (t.call (some id)) := by
  simp only [isClosed, isCancelled, tokenTripped, Ticket.call, Option.any_some, found]
  cases m.stopping <;> simp

theorem Kept.host_deleted_iff (h : Kept es m) (taken : .taken call ∈ es) :
    (call.host.any fun id => (Table.find? m.instances id).any Instance.deleted) = true ↔
      ∃ id before, call.host = some id ∧ before ++ [.deleted id] <+: es ∧ .taken call ∈ before := by
  rw [Option.any_eq_true]
  refine exists_congr fun id => ?_
  have doomed := h.noted.doomed id
  rw [Option.map_eq_some_iff] at doomed
  rw [Option.any_eq_true, ← doomed]
  constructor
  · rintro ⟨host, gone⟩
    obtain ⟨before, within, early⟩ := h.placed.lawful.deleted_behind taken host gone
    exact ⟨before, host, within, early⟩
  · rintro ⟨before, host, within, -⟩
    exact ⟨host, within.subset (by simp)⟩

theorem Kept.mem_tripped_iff (h : Kept es m) (taken : .taken call ∈ es) :
    call.serial ∈ m.tripped ↔
      ∃ before, before ++ [.cancel call.key] <+: es ∧ Current before call := by
  have noted : m.tripped = (booksOf es).tripped := congrArg Books.tripped h.noted.books
  rw [noted, mem_tripped_booksOf]
  constructor
  · rintro ⟨before, c, within, current, serial⟩
    have early : .taken c ∈ es := within.subset (List.mem_append_left _ current.mem)
    obtain rfl := h.placed.lawful.serial_inj early taken serial
    exact ⟨before, within, current⟩
  · rintro ⟨before, within, current⟩
    exact ⟨before, call, within, current, rfl⟩

/-- Why the token of a call is tripped: the machine was stopped, the component of the call was deleted
behind it, or a cancel under its key found it. -/
theorem Kept.tokenTripped_iff (h : Kept es m) (taken : .taken call ∈ es) :
    m.tokenTripped call = true ↔ .stopped ∈ es ∨
      (∃ id before, call.host = some id ∧ before ++ [.deleted id] <+: es ∧ .taken call ∈ before) ∨
      ∃ before, before ++ [.cancel call.key] <+: es ∧ Current before call := by
  rw [tokenTripped, Bool.or_eq_true, Bool.or_eq_true, List.contains_iff_mem,
    h.host_deleted_iff taken, h.mem_tripped_iff taken, h.noted.stopping, or_assoc]

/-! ## What a cancel finds -/

/-- A cancel under the key of the call is answered with success, and trips this call. -/
structure Cancels (m : Machine σ) (call : Call) : Prop where
  answered : (m.handle (.cancel call.key.1 call.key.2)).replies =
    m.replies ++ [⟨m.serial, call.key.1, none, .respondOk call.key.2⟩]
  trips : (m.handle (.cancel call.key.1 call.key.2)).tripped = call.serial :: m.tripped

theorem Cancels.tokenTripped (h : m.Cancels call) :
    (m.handle (.cancel call.key.1 call.key.2)).tokenTripped call = true := by
  simp [Machine.tokenTripped, h.trips]

/-- What is found for cancelling is the current call. -/
theorem Kept.find?_inflight (h : Kept es m) {key : CallKey} {n : Nat} :
    Table.find? m.inflight key = some n ↔
      ∃ call, Current es call ∧ call.key = key ∧ call.serial = n := by
  have noted : m.inflight = (booksOf es).inflight := congrArg Books.inflight h.noted.books
  rw [noted, find?_booksOf]

theorem handle_cancel_found {key : CallKey} {n : Nat} (found : Table.find? m.inflight key = some n) :
    m.handle (.cancel key.1 key.2) =
      { m with
        serial := m.serial + 1
        tripped := n :: m.tripped
        replies := m.replies ++ [⟨m.serial, key.1, none, .respondOk key.2⟩] } := by
  simp [handle, cancel_eq, Table.has, found]

theorem handle_cancel_unknown {key : CallKey} (none : Table.find? m.inflight key = none) :
    m.handle (.cancel key.1 key.2) =
      { m with
        serial := m.serial + 1
        replies := m.replies ++
          [⟨m.serial, key.1, Option.none, .respondFault key.2 (.unknownTransaction key.2)⟩] } := by
  simp [handle, cancel_eq, Table.has, none]

/-- A cancel reaches a call when it is the current one under its key. -/
theorem Kept.cancels_iff (h : Kept es m) (taken : .taken call ∈ es) :
    m.Cancels call ↔ Current es call := by
  constructor
  · intro cancels
    have trips := cancels.trips
    cases found : Table.find? m.inflight call.key with
    | none => simp [handle_cancel_unknown found] at trips
    | some n =>
      rw [handle_cancel_found found] at trips
      obtain ⟨c, current, -, serial⟩ := h.find?_inflight.1 found
      have same : c.serial = call.serial := serial.trans (List.cons.inj trips).1
      exact h.placed.lawful.serial_inj current.mem taken same ▸ current
  · intro current
    have found := h.find?_inflight.2 ⟨call, current, rfl, rfl⟩
    exact
      { answered := by rw [handle_cancel_found found]
        trips := by rw [handle_cancel_found found] }

/-! ## One call at a time under a key -/

/-- What is not told of is not heard of. -/
theorem Placed.outstanding_of_untold {host : Option Nat} (h : Placed es m)
    (here : call ∈ untold es host) : Outstanding es call := by
  obtain ⟨taken, -, silent⟩ := mem_untold.1 here
  exact ⟨taken, fun heard => silent (h.lawful.told_of_heard heard)⟩

/-- Nothing is left to do for any call. -/
structure Quiet (m : Machine σ) : Prop where
  tasks : m.tasks = []
  instances : ∀ id i, Table.find? m.instances id = some i →
    i.mailbox = [] ∧ i.phase.ticket? = none ∧ i.phase.finished? = none
  notices : m.notices = []

/-- In a quiet machine no call is outstanding. -/
theorem Placed.settled (h : Placed es m) (quiet : m.Quiet) : ¬ Outstanding es call := by
  rintro ⟨taken, unheard⟩
  have silent : .told call ∉ es := by
    intro told
    obtain ⟨waiting, split, keys⟩ := h.notices
    rw [quiet.notices, eq_comm, List.map_eq_nil_iff] at keys
    rw [keys, List.append_nil] at split
    exact unheard (mem_heardIn.1 (split ▸ mem_toldIn.2 told))
  cases host : call.host with
  | none =>
    have here : call ∈ untold es none := mem_untold.2 ⟨taken, host, silent⟩
    simp [h.tasks, quiet.tasks] at here
  | some id =>
    have here : call ∈ untold es (some id) := mem_untold.2 ⟨taken, host, silent⟩
    obtain ⟨i, found⟩ := h.hosted call id taken host
    obtain ⟨mailbox, ticket, finished⟩ := quiet.instances id i found
    obtain ⟨front, hand, line⟩ := h.lines id i found
    rw [line, hand.of_free ticket finished, mailbox] at here
    cases here

/-- The calls in flight are accounted for, each for its own client. -/
structure Accounted (es : List CallEvent) (m : Machine σ) : Prop where
  /-- The keys in the table are those of the outstanding calls, and its entries their numbers. -/
  keys : ∀ key, key ∈ Table.keys m.inflight ↔ ∃ call, Outstanding es call ∧ call.key = key
  entries : ∀ call, Outstanding es call → Table.find? m.inflight call.key = some call.serial
  /-- A cancel under the key of an outstanding call is answered with success and trips this call; -/
  found : ∀ call, Outstanding es call →
    m.handle (.cancel call.key.1 call.key.2) =
      { m with
        serial := m.serial + 1
        tripped := call.serial :: m.tripped
        replies := m.replies ++ [⟨m.serial, call.key.1, none, .respondOk call.key.2⟩] }
  /-- no other call notices anything. -/
  apart : ∀ call, Outstanding es call → ∀ other, .taken other ∈ es →
    ((m.handle (.cancel call.key.1 call.key.2)).tokenTripped other = true ↔
      m.tokenTripped other = true ∨ other = call)
  /-- Any other cancel is answered with a failure, and changes nothing. -/
  unknown : ∀ key, (∀ call, Outstanding es call → call.key ≠ key) →
    m.handle (.cancel key.1 key.2) =
      { m with
        serial := m.serial + 1
        replies := m.replies ++
          [⟨m.serial, key.1, none, .respondFault key.2 (.unknownTransaction key.2)⟩] }
  /-- The token of a call is tripped by stopping the machine, by deleting its component behind it, and
  by a cancel under its own key while it is outstanding; by nothing else. -/
  token : ∀ call, .taken call ∈ es → (m.tokenTripped call = true ↔ .stopped ∈ es ∨
    (∃ id before, call.host = some id ∧ before ++ [.deleted id] <+: es ∧ .taken call ∈ before) ∨
    ∃ before, before ++ [.cancel call.key] <+: es ∧ Outstanding before call)
  /-- It is what the task of an outstanding call looks at, or its instance. -/
  tasks : ∀ id task, Table.find? m.tasks id = some task →
    Outstanding es (task.ticket.call none) ∧
      m.isCancelled task.ticket = m.tokenTripped (task.ticket.call none)
  instances : ∀ id i t, Table.find? m.instances id = some i → i.phase.ticket? = some t →
    Outstanding es (t.call (some id)) ∧
      (m.isClosed i || m.isCancelled t) = m.tokenTripped (t.call (some id))
  /-- The machine hears of the end of a call once, and behind its last reply. -/
  heard : (heardIn es).Nodup ∧ ∀ call, .heard call ∈ es → .taken call ∈ es ∧ Answered m.replies call
  /-- When nothing is left to do, the table is empty. -/
  drained : m.Quiet → m.inflight = []

theorem accounted (run : CallRun registry es m) (apart : OneAtATime es) : Accounted es m := by
  have kept := run.kept
  have lawful := kept.placed.lawful
  have current {call : Call} : Current es call ↔ Outstanding es call :=
    lawful.current_iff_outstanding apart
  have keys (key : CallKey) :
      key ∈ Table.keys m.inflight ↔ ∃ call, Outstanding es call ∧ call.key = key := by
    rw [Table.mem_keys_iff]
    simp only [kept.find?_inflight, current]
    constructor
    · rintro ⟨n, call, outstanding, same, -⟩
      exact ⟨call, outstanding, same⟩
    · rintro ⟨call, outstanding, same⟩
      exact ⟨call.serial, call, outstanding, same, rfl⟩
  have entries (call : Call) (outstanding : Outstanding es call) :
      Table.find? m.inflight call.key = some call.serial :=
    kept.find?_inflight.2 ⟨call, current.2 outstanding, rfl, rfl⟩
  constructor
  case keys => exact keys
  case entries => exact entries
  case found => exact fun call outstanding => handle_cancel_found (entries call outstanding)
  case apart =>
    intro call outstanding other taken
    have numbers : other.serial = call.serial ↔ other = call :=
      ⟨fun same => lawful.serial_inj taken outstanding.1 same, fun same => same ▸ rfl⟩
    rw [handle_cancel_found (entries call outstanding)]
    simp only [tokenTripped, List.contains_cons, Bool.or_eq_true, beq_iff_eq, numbers]
    tauto
  case unknown =>
    intro key others
    apply handle_cancel_unknown
    cases found : Table.find? m.inflight key with
    | none => rfl
    | some n =>
      obtain ⟨call, now, same, -⟩ := kept.find?_inflight.1 found
      exact absurd same (others call (current.1 now))
  case token =>
    intro call taken
    rw [kept.tokenTripped_iff taken]
    refine or_congr_right (or_congr_right (exists_congr fun before => and_congr_right fun within => ?_))
    have early := (List.prefix_append before _).trans within
    have lawful : Lawful before := lawful.of_prefix early
    exact lawful.current_iff_outstanding (apart.of_prefix early)
  case tasks =>
    intro id task found
    have here : task.ticket.call none ∈ untold es none := by
      rw [kept.placed.tasks]
      exact List.mem_map.2 ⟨_, Table.mem_of_find? found, rfl⟩
    exact ⟨kept.placed.outstanding_of_untold here, m.isCancelled_eq task.ticket⟩
  case instances =>
    intro id i t found ticket
    obtain ⟨front, hand, line⟩ := kept.placed.lines id i found
    have here : t.call (some id) ∈ untold es (some id) := by
      rw [line, hand.of_ticket ticket]
      exact List.mem_cons_self
    exact ⟨kept.placed.outstanding_of_untold here, isClosed_or_isCancelled found t⟩
  case heard =>
    refine ⟨lawful.told_nodup.sublist lawful.heard_prefix.sublist, fun call heard => ?_⟩
    have told := lawful.told_of_heard heard
    exact ⟨lawful.taken_of_told told, kept.placed.answered call told⟩
  case drained =>
    intro quiet
    have none : ∀ key, key ∉ Table.keys m.inflight := by
      intro key member
      obtain ⟨call, outstanding, -⟩ := (keys key).1 member
      exact kept.placed.settled quiet outstanding
    exact List.map_eq_nil_iff.1 (List.eq_nil_iff_forall_not_mem.2 none)

/-- A registry with a function and a component type whose calls wait for ever, and a function that
does not. -/
def waitRegistry : Registry Unit :=
  ⟨[("wait", ⟨"demo", .streaming fun _ => .ok ⟨fun _ => .never⟩⟩),
    ("now", ⟨"demo", .instant fun _ => .ok .null⟩)],
    [("room", ⟨"demo", fun _ => .ok ⟨(), [("wait", .streaming fun s _ => (.ok ⟨fun _ => .never⟩, s))],
      fun _ => []⟩⟩)]⟩

/-- Two clients use the same key; the call of the one ends and is heard of, and then it uses the key
again. The other one cancels its own call. -/
def waitMoves : List Move :=
  [.request (.execute 1 (.componentType "room") (.defineComponent "a" "room" "c" .null)),
    .request (.execute 1 (.function "wait") (.callFunction "x" "wait" .null)),
    .request (.execute 2 (.function "now") (.callFunction "x" "now" .null)),
    .request (.execute 1 (.method "c" "wait") (.callMethod "y" "c" "wait" .null)),
    .task 2 0, .task 2 0, .task 2 0, .notice,
    .request (.execute 2 (.function "wait") (.callFunction "x" "wait" .null)),
    .request (.cancel 1 "x")]

theorem accounted_wait :
    ∃ (es : List CallEvent) (m : Machine Unit), CallRun waitRegistry es m ∧ OneAtATime es ∧
      Table.keys m.inflight = [(1, "x"), (1, "y"), (2, "x")] ∧ m.tripped = [1] ∧
      Accounted es m := by
  obtain ⟨es, m, made, apart, keys, tripped⟩ : ∃ (es : List CallEvent) (m : Machine Unit),
      (init waitRegistry).logAfter? [] waitMoves = some (es, m) ∧ OneAtATime es ∧
        Table.keys m.inflight = [(1, "x"), (1, "y"), (2, "x")] ∧ m.tripped = [1] :=
    ⟨_, _, rfl, by decide, rfl, rfl⟩
  have run := CallRun.start.after made
  exact ⟨es, m, run, apart, keys, tripped, accounted run apart⟩

/-! ## Cancels in two moves -/

/-- A cancel has begun under this key, while these calls were in flight. -/
structure Begun (m : Machine σ) (key : CallKey) (inflight : Table CallKey Nat) : Prop where
  running : m.halted = false
  cancelling : m.cancelling? = some key
  inflight : m.inflight = inflight

theorem begun_of_trip {key : CallKey} (step : m.move? (.trip key) = some k) :
    k.Begun key m.inflight := by
  obtain ⟨idle, rfl⟩ := trip_of_move step
  exact
    { running := (Bool.or_eq_false_iff.1 idle).1
      cancelling := if_neg (Nat.lt_irrefl m.serial)
      inflight := rfl }

section

variable {key : CallKey} {inflight : Table CallKey Nat}

theorem Begun.busy (h : m.Begun key inflight) : m.isBusy = true := by
  simp [isBusy, h.cancelling]

/-- Until a request is taken, the cancel stays begun and the calls in flight stay as they are. -/
theorem Begun.move (h : m.Begun key inflight) {l : Move} (step : m.move? l = some k)
    (untaken : l.asked = []) : k.Begun key inflight := by
  cases l with
  | trip | halt | notice => simp [move?, h.busy] at step
  | request r => cases untaken
  | stop =>
    cases step
    exact { h with }
  | task id now => cases stepTask_move step <;> exact { h with }
  | «instance» id now =>
    cases stepInstance_move step
    exact { h with }
  | waiter id =>
    cases stepWaiter_move step
    exact { h with }

theorem Begun.run {later : List (Occurrence σ)} {n : Machine σ} (h : k.Begun key inflight)
    (since : Run k later n) (untaken : requestsIn later = []) : n.Begun key inflight := by
  induction since with
  | refl => exact h
  | move l before step ih =>
    rw [requestsIn, List.filterMap_append, List.append_eq_nil_iff] at untaken
    have asked := requestsIn_occurrences (move_change step)
    exact (ih untaken.1).move step (asked.symm.trans untaken.2)
  | exchange other before ih =>
    exact { ih untaken with }

/-- Once a cancel has tripped its call, no other request is taken before it, whatever else moves; and it
is answered by whether there was such a call when it began. -/
theorem answer_of_trip {later : List (Occurrence σ)} {n : Machine σ}
    (trips : m.move? (.trip key) = some k) (since : Run k later n)
    (untaken : requestsIn later = []) :
    (∀ r n', n.move? (.request r) = some n' → r = .cancel key.1 key.2) ∧
      n.move? (.request (.cancel key.1 key.2)) = some { n with
        serial := n.serial + 1
        tripped := (Table.find? m.inflight key).toList ++ n.tripped
        replies := n.replies ++ [⟨n.serial, key.1, none,
          if Table.has m.inflight key then .respondOk key.2
          else .respondFault key.2 (.unknownTransaction key.2)⟩] } := by
  have begun := (begun_of_trip trips).run since untaken
  have takes (r : Request) : n.defers r = !r.cancels key := by
    simp [defers, begun.running, begun.cancelling]
  constructor
  · intro r n' step
    have own : r.cancels key = true := by simpa [takes] using (move_request_iff.1 step).1
    cases r with
    | execute => cases own
    | cancel origin tx =>
      obtain rfl : (origin, tx) = key := by simpa [Request.cancels] using own
      rfl
  · refine move_request_iff.2 ⟨by simp [takes, Request.cancels], ?_⟩
    simp only [handle, cancel_eq, begun.inflight]

end

/-- A call may be answered between the two moves of its cancel, and so before the cancel is. -/
example : ((init waitRegistry).after?
    [.request (.execute 1 (.function "wait") (.callFunction "x" "wait" .null)), .task 0 0, .task 0 0,
      .trip (1, "x"), .task 0 0, .request (.cancel 1 "x")]).map (fun m => m.replies.map Reply.serial) =
    some [0, 1] := rfl

/-! ## Keys used again -/

/-- Since the call was taken on, no other call was started under its key, and the machine heard of the
end of no other there. -/
def Undisturbed (es : List CallEvent) (call : Call) : Prop :=
  ∃ before after, es = before ++ .taken call :: after ∧
    ∀ e ∈ after, e.starts? ≠ some call.key ∧
      ∀ other, e = .heard other → other ≠ call → other.key ≠ call.key

/-- A cancel reaches a running call as long as its key is not used again, and then only. -/
theorem cancels_iff_undisturbed (run : CallRun registry es m) (taken : .taken call ∈ es)
    (running : terminals (m.repliesTo call.serial) = 0) : m.Cancels call ↔ Undisturbed es call := by
  have kept := run.kept
  have unheard : .heard call ∉ es := by
    intro heard
    obtain ⟨r, sent, serial, last⟩ :=
      kept.placed.answered call (kept.placed.lawful.told_of_heard heard)
    have own : r ∈ m.repliesTo call.serial := by simp [repliesTo, Ledger.repliesTo, sent, serial]
    exact absurd last (List.countP_eq_zero.1 running r own)
  rw [kept.cancels_iff taken]
  constructor
  · rintro ⟨before, after, rfl, free⟩
    refine ⟨before, after, rfl, fun e member => ⟨fun starts => ?_, ?_⟩⟩
    · cases e with
      | taken c => exact free _ member (Option.some.inj starts)
      | turnedAway key => exact free _ member (Option.some.inj starts)
      | _ => cases starts
    · rintro other rfl - same
      exact free _ member same
  · rintro ⟨before, after, rfl, free⟩
    refine ⟨before, after, rfl, fun e member clears => ?_⟩
    obtain ⟨starts, hears⟩ := free e member
    cases e with
    | taken c => exact starts (congrArg some clears)
    | turnedAway key => exact starts (congrArg some clears)
    | heard c =>
      by_cases same : c = call
      · subst same
        exact unheard (by simp [member])
      · exact hears c rfl same clears
    | _ => cases clears

/-- The second call of a client under its key, behind the end of the first. -/
theorem cancels_iff_undisturbed_wait :
    ∃ (es : List CallEvent) (m : Machine Unit), CallRun waitRegistry es m ∧
      .taken ⟨4, (2, "x"), none⟩ ∈ es ∧ terminals (m.repliesTo 4) = 0 ∧
      Undisturbed es ⟨4, (2, "x"), none⟩ ∧ m.Cancels ⟨4, (2, "x"), none⟩ := by
  obtain ⟨es, m, made, taken, running, log⟩ : ∃ (es : List CallEvent) (m : Machine Unit),
      (init waitRegistry).logAfter? [] waitMoves = some (es, m) ∧
        .taken ⟨4, (2, "x"), none⟩ ∈ es ∧ terminals (m.repliesTo 4) = 0 ∧
        es = es.take 5 ++ .taken ⟨4, (2, "x"), none⟩ :: [.cancel (1, "x")] :=
    ⟨_, _, rfl, by decide, rfl, rfl⟩
  have run := CallRun.start.after made
  have undisturbed : Undisturbed es ⟨4, (2, "x"), none⟩ :=
    ⟨es.take 5, [.cancel (1, "x")], log, by simp [CallEvent.starts?]⟩
  exact ⟨es, m, run, taken, running, undisturbed,
    (cancels_iff_undisturbed run taken running).2 undisturbed⟩

/-- A client uses the key of a running call for one that ends at once. -/
def reuseMoves : List Move :=
  [.request (.execute 1 (.function "wait") (.callFunction "x" "wait" .null)), .task 0 0, .task 0 0,
    .request (.execute 1 (.function "now") (.callFunction "x" "now" .null)), .task 1 0, .task 1 0,
    .task 1 0, .notice]

/-- The notice of the second call takes the entry away, and the first runs on beyond reach. -/
theorem not_cancels_reuse :
    ∃ (es : List CallEvent) (m : Machine Unit), CallRun waitRegistry es m ∧ m.halted = false ∧
      .taken ⟨0, (1, "x"), none⟩ ∈ es ∧ terminals (m.repliesTo 0) = 0 ∧
      (m.handle (.cancel 1 "x")).replies =
        m.replies ++ [⟨2, 1, none, .respondFault "x" (.unknownTransaction "x")⟩] ∧
      (m.handle (.cancel 1 "x")).tokenTripped ⟨0, (1, "x"), none⟩ = false ∧
      ¬ m.Cancels ⟨0, (1, "x"), none⟩ := by
  obtain ⟨es, m, made, halted, taken, running, answered, free⟩ :
      ∃ (es : List CallEvent) (m : Machine Unit),
        (init waitRegistry).logAfter? [] reuseMoves = some (es, m) ∧ m.halted = false ∧
          .taken ⟨0, (1, "x"), none⟩ ∈ es ∧ terminals (m.repliesTo 0) = 0 ∧
          (m.handle (.cancel 1 "x")).replies =
            m.replies ++ [⟨2, 1, none, .respondFault "x" (.unknownTransaction "x")⟩] ∧
          (m.handle (.cancel 1 "x")).tokenTripped ⟨0, (1, "x"), none⟩ = false :=
    ⟨_, _, rfl, rfl, by decide, rfl, rfl, rfl⟩
  refine ⟨es, m, CallRun.start.after made, halted, taken, running, answered, free, fun cancels => ?_⟩
  exact absurd cancels.tokenTripped (by simp [free])

end Patchbay.Machine
