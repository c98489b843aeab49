import Patchbay.Proofs.Machine.CallRuns

/-!
# Where the calls are

In every run the calls of which nothing was told are those of the tasks and, for each instance, the one
that it is at and those in its mailbox; each call of which something was told has its last reply; and
the queue of notices is that of the calls told of but not heard of. The table of calls in flight, the
tripped calls and the flags are what the log says. Every kind of move keeps this.
-/

namespace Patchbay.Machine

open CallEvent

variable {σ : Type} {registry : Registry σ} {m k : Machine σ} {es : List CallEvent} {e : CallEvent}
  {call : Call} {id : Nat} {i : Instance σ}

/-- Where the calls are. -/
structure Placed (es : List CallEvent) (m : Machine σ) : Prop where
  lawful : Lawful es
  numbered : ∀ call, .taken call ∈ es → call.serial < m.serial
  tasks : untold es none = m.tasks.map fun entry => entry.2.ticket.call none
  own : ∀ entry ∈ m.tasks, entry.2.ticket.serial = entry.1
  ended : ∀ entry ∈ m.tasks, entry.2.work = .answered →
    Answered m.replies (entry.2.ticket.call none)
  lines : ∀ id i, Table.find? m.instances id = some i → Lined m.replies id i (untold es (some id))
  hosted : ∀ call id, .taken call ∈ es → call.host = some id →
    ∃ i, Table.find? m.instances id = some i
  answered : ∀ call, .told call ∈ es → Answered m.replies call
  notices : ∃ waiting, toldIn es = heardIn es ++ waiting ∧ m.notices = waiting.map Call.key

def books (m : Machine σ) : Books := ⟨m.inflight, m.tripped⟩

/-- What is noted of the calls. -/
structure Noted (es : List CallEvent) (m : Machine σ) : Prop where
  books : m.books = booksOf es
  stopping : m.stopping = true ↔ .stopped ∈ es
  doomed : ∀ id, .deleted id ∈ es ↔ (Table.find? m.instances id).map Instance.deleted = some true

/-- What a log says of a machine. -/
structure Kept (es : List CallEvent) (m : Machine σ) : Prop where
  placed : Placed es m
  noted : Noted es m

theorem kept_init (registry : Registry σ) : Kept [] (init registry) where
  placed :=
    { lawful := lawful_nil
      numbered := by simp
      tasks := rfl
      own := by simp [init]
      ended := by simp [init]
      lines := by simp [init]
      hosted := by simp
      answered := by simp
      notices := ⟨[], rfl, rfl⟩ }
  noted :=
    { books := rfl
      stopping := by simp [init]
      doomed := by simp [init] }

/-! ## What does not move the calls -/

/-- Replies, numbers and names do not matter. -/
theorem Placed.frame (h : Placed es m) (tasks : k.tasks = m.tasks)
    (instances : k.instances = m.instances) (notices : k.notices = m.notices)
    (serial : m.serial ≤ k.serial) (replies : m.replies ⊆ k.replies) : Placed es k where
  lawful := h.lawful
  numbered call taken := Nat.lt_of_lt_of_le (h.numbered call taken) serial
  tasks := tasks ▸ h.tasks
  own := tasks ▸ h.own
  ended entry member answered := (h.ended entry (tasks ▸ member) answered).mono replies
  lines id i found := (h.lines id i (instances ▸ found)).mono replies
  hosted := instances ▸ h.hosted
  answered call told := (h.answered call told).mono replies
  notices := notices ▸ h.notices

/-- Nor does what is no news of a call. -/
theorem Placed.silent (h : Placed es m) (untaken : e.taken? = none) (untold : e.told? = none)
    (unheard : e.heard? = none) : Placed (es ++ [e]) m := by
  have taken (call : Call) : .taken call ∈ es ++ [e] ↔ .taken call ∈ es := by
    rw [← mem_takenIn, ← mem_takenIn, takenIn_append_one, untaken, Option.toList_none,
      List.append_nil]
  have told (call : Call) : .told call ∈ es ++ [e] ↔ .told call ∈ es := by
    rw [← mem_toldIn, ← mem_toldIn, toldIn_append_one, untold, Option.toList_none, List.append_nil]
  have same (host : Option Nat) : Machine.untold (es ++ [e]) host = Machine.untold es host :=
    untold_append_one host untaken untold
  refine
    { h with
      lawful := lawful_append_one.2 ⟨h.lawful, ?_⟩
      numbered := fun call member => h.numbered call ((taken call).1 member)
      tasks := (same none).trans h.tasks
      lines := fun id i found => same (some id) ▸ h.lines id i found
      hosted := fun call id member => h.hosted call id ((taken call).1 member)
      answered := fun call member => h.answered call ((told call).1 member)
      notices := by simpa [untold, unheard] using h.notices }
  cases e <;> trivial

/-- Marking an instance leaves its calls where they are. -/
theorem Placed.mark (h : Placed es m) (id : Nat) :
    Placed es
      { m with instances := Table.modify m.instances id fun i => { i with deleted := true } } := by
  have unmarked (j : Nat) (x : Instance σ) (found : Table.find? (Table.modify m.instances id
      fun i => { i with deleted := true }) j = some x) :
      ∃ i, Table.find? m.instances j = some i ∧ x.phase = i.phase ∧ x.mailbox = i.mailbox := by
    rw [Table.find?_modify] at found
    obtain ⟨i, there, rfl⟩ := Option.map_eq_some_iff.1 found
    refine ⟨i, there, ?_⟩
    split <;> exact ⟨rfl, rfl⟩
  refine { h with lines := fun j x found => ?_, hosted := fun call j taken host => ?_ }
  · obtain ⟨i, there, phase, mailbox⟩ := unmarked j x found
    rw [Lined, phase, mailbox]
    exact h.lines j i there
  · obtain ⟨i, there⟩ := h.hosted call j taken host
    simp [Table.find?_modify, there]

/-! ## Taking a call on -/

theorem Placed.fresh (h : Placed es m) (serial : call.serial = m.serial) :
    .taken call ∉ es ∧ .told call ∉ es := by
  have untaken : .taken call ∉ es := fun taken => Nat.ne_of_lt (h.numbered call taken) serial
  exact ⟨untaken, fun told => untaken (h.lawful.taken_of_told told)⟩

/-- A call may be taken on under the next number, for an instance that is not deleted. -/
theorem Placed.lawful_taken (h : Placed es m) (serial : call.serial = m.serial)
    (kept : ∀ id, call.host = some id → .deleted id ∉ es) : Lawful (es ++ [.taken call]) :=
  lawful_append_one.2
    ⟨h.lawful, fun other taken => serial ▸ h.numbered other taken, kept⟩

theorem Placed.numbered_taken (h : Placed es m) (serial : call.serial = m.serial) (c : Call)
    (taken : .taken c ∈ es ++ [.taken call]) : c.serial < m.serial + 1 := by
  rcases List.mem_append.1 taken with old | new
  · exact Nat.lt_succ_of_lt (h.numbered c old)
  · cases List.mem_singleton.1 new
    exact serial ▸ Nat.lt_succ_self _

theorem Placed.takeFunction (h : Placed es m) {t : Ticket} (serial : t.serial = m.serial)
    (op : Operator) (args : Value) (inflight : Table CallKey Nat) :
    Placed (es ++ [.taken (t.call none)])
      { m with
        serial := m.serial + 1
        inflight := inflight
        tasks := m.tasks ++ [(t.serial, ⟨t, .start op args⟩)] } where
  lawful := h.lawful_taken serial (by simp [Ticket.call])
  numbered := h.numbered_taken serial
  tasks := by
    rw [untold_taken none (h.fresh serial).2, h.tasks]
    simp [Ticket.call]
  own entry member := by
    rcases List.mem_append.1 member with old | new
    · exact h.own entry old
    · rw [List.mem_singleton.1 new]
  ended entry member answered := by
    rcases List.mem_append.1 member with old | new
    · exact h.ended entry old answered
    · rw [List.mem_singleton.1 new] at answered
      cases answered
  lines id i found := by
    rw [untold_taken (some id) (h.fresh serial).2, if_neg (by simp [Ticket.call]), List.append_nil]
    exact h.lines id i found
  hosted call id taken host := by
    rcases List.mem_append.1 taken with old | new
    · exact h.hosted call id old host
    · cases List.mem_singleton.1 new
      cases host
  answered call told := h.answered call (by simpa using told)
  notices := by simpa [told?, heard?] using h.notices

theorem Placed.takeMethod (h : Placed es m) (made : MethodCall)
    (serial : made.ticket.serial = m.serial) (found : Table.find? m.instances id = some i)
    (kept : .deleted id ∉ es) (inflight : Table CallKey Nat) :
    Placed (es ++ [.taken (made.ticket.call (some id))])
      { m with
        serial := m.serial + 1
        inflight := inflight
        instances := Table.modify m.instances id fun i => { i with mailbox := i.mailbox ++ [made] } }
    where
  lawful := h.lawful_taken serial (by simpa [Ticket.call] using kept)
  numbered := h.numbered_taken serial
  tasks := by
    rw [untold_taken none (h.fresh serial).2, if_neg (by simp [Ticket.call]), List.append_nil]
    exact h.tasks
  own := h.own
  ended := h.ended
  lines j x there := by
    rw [untold_taken (some j) (h.fresh serial).2]
    rw [Table.find?_modify] at there
    obtain ⟨old, before, rfl⟩ := Option.map_eq_some_iff.1 there
    obtain ⟨front, hand, line⟩ := h.lines j old before
    by_cases same : id = j
    · subst same
      exact ⟨front, by simpa using hand, by simp [line, Ticket.call]⟩
    · rw [if_neg same, if_neg (by simpa [Ticket.call] using same), List.append_nil]
      exact ⟨front, hand, line⟩
  hosted call j taken host := by
    have there : ∃ i, Table.find? m.instances j = some i := by
      rcases List.mem_append.1 taken with old | new
      · exact h.hosted call j old host
      · cases List.mem_singleton.1 new
        cases host
        exact ⟨i, found⟩
    obtain ⟨x, there⟩ := there
    simp [Table.find?_modify, there]
  answered call told := h.answered call (by simpa using told)
  notices := by simpa [told?, heard?] using h.notices

/-! ## Telling and hearing of an end -/

/-- The end of a call that was answered is told, and a notice sent. -/
theorem Placed.notices_told (h : Placed es m) (call : Call) :
    ∃ waiting, toldIn (es ++ [.told call]) = heardIn (es ++ [.told call]) ++ waiting ∧
      m.notices ++ [call.key] = waiting.map Call.key := by
  obtain ⟨waiting, queue, keys⟩ := h.notices
  exact ⟨waiting ++ [call], by simp [told?, heard?, queue], by simp [keys]⟩

theorem Placed.answered_told (h : Placed es m) (answered : Answered m.replies call) (c : Call)
    (told : .told c ∈ es ++ [.told call]) : Answered m.replies c := by
  rcases List.mem_append.1 told with old | new
  · exact h.answered c old
  · cases List.mem_singleton.1 new
    exact answered

/-- The next notice is that of the first call that was told of and not heard of. -/
theorem Placed.next_notice (h : Placed es m) {key : CallKey} {rest : List CallKey}
    (queue : m.notices = key :: rest) :
    ∃ call waiting, toldIn es = heardIn es ++ call :: waiting ∧
      (toldIn es)[(heardIn es).length]? = some call ∧ call.key = key ∧
      rest = waiting.map Call.key := by
  obtain ⟨waiting, split, keys⟩ := h.notices
  rw [queue] at keys
  obtain ⟨call, later, rfl, first, others⟩ := List.map_eq_cons_iff.1 keys.symm
  exact ⟨call, later, split, by simp [split], first, others.symm⟩

theorem Placed.hear (h : Placed es m) {waiting : List Call}
    (split : toldIn es = heardIn es ++ call :: waiting) (inflight : Table CallKey Nat) :
    Placed (es ++ [.heard call])
      { m with notices := waiting.map Call.key, inflight := inflight } where
  lawful := lawful_append_one.2 ⟨h.lawful, waiting, split⟩
  numbered c taken := h.numbered c (by simpa using taken)
  tasks := (untold_append_one none rfl rfl).trans h.tasks
  own := h.own
  ended := h.ended
  lines id i found := by
    rw [untold_append_one (some id) rfl rfl]
    exact h.lines id i found
  hosted c id taken := h.hosted c id (by simpa using taken)
  answered c told := h.answered c (by simpa using told)
  notices := ⟨waiting, by simp [told?, heard?, split], rfl⟩

/-- Telling of a call of one host leaves those of the others. -/
theorem untold_told_other {host : Option Nat} (other : call.host ≠ host) :
    untold (es ++ [.told call]) host = untold es host := by
  rw [untold_told]
  refine List.filter_eq_self.2 fun c member => decide_eq_true ?_
  rintro rfl
  exact other (mem_untold.1 member).2.1

/-! ## Tasks -/

section

variable {task : Task}

theorem Placed.workTask (h : Placed es m) {next : Task} {rs : List Reply}
    (found : Table.find? m.tasks id = some task)
    (same : next.ticket.call none = task.ticket.call none)
    (last : next.work = .answered → Answered rs (task.ticket.call none)) :
    Placed es { m with tasks := Table.put m.tasks id next, replies := m.replies ++ rs } := by
  have longer : m.replies ⊆ m.replies ++ rs := List.subset_append_left _ _
  refine
    { h with
      tasks := h.tasks.trans (Table.map_put (f := fun task => task.ticket.call none) found same).symm
      own := fun entry member => ?_
      ended := fun entry member answered => ?_
      lines := fun j i there => (h.lines j i there).mono longer
      answered := fun call told => (h.answered call told).mono longer }
  · rcases Table.mem_put member with rfl | old
    · exact (congrArg Call.serial same).trans (h.own _ (Table.mem_of_find? found))
    · exact h.own entry old
  · rcases Table.mem_put member with rfl | old
    · exact same ▸ (last answered).mono (List.subset_append_right _ _)
    · exact (h.ended entry old answered).mono longer

theorem Placed.tellTask (h : Placed es m) (bound : Table.Below m.serial m.tasks)
    (found : Table.find? m.tasks id = some task) (answered : task.work = .answered) :
    Placed (es ++ [.told (task.ticket.call none)])
      { m with
        tasks := Table.erase m.tasks id
        notices := m.notices ++ [task.ticket.key] } := by
  have member := Table.mem_of_find? found
  have here : task.ticket.call none ∈ untold es none := by
    rw [h.tasks]
    exact List.mem_map.2 ⟨_, member, rfl⟩
  obtain ⟨taken, -, silent⟩ := mem_untold.1 here
  have serial : task.ticket.serial = id := h.own _ member
  exact
    { lawful := lawful_append_one.2 ⟨h.lawful, taken, silent⟩
      numbered := fun call taken => h.numbered call (by simpa using taken)
      tasks := by
        rw [untold_told, h.tasks, List.filter_map, Table.erase]
        congr 1
        apply List.filter_congr
        intro entry known
        have own := h.own entry known
        by_cases same : entry.1 = id
        · have only := Table.find?_of_mem bound.unique known
          rw [same, found, Option.some.injEq] at only
          simp [same, only]
        · have apart : entry.2.ticket.call none ≠ task.ticket.call none := by
            intro equal
            exact same (own.symm.trans ((congrArg Call.serial equal).trans serial))
          simp [same, apart]
      own := fun entry left => h.own entry (List.mem_of_mem_filter left)
      ended := fun entry left => h.ended entry (List.mem_of_mem_filter left)
      lines := fun j i there => by
        rw [untold_told_other (by simp [Ticket.call])]
        exact h.lines j i there
      hosted := fun call j taken => h.hosted call j (by simpa using taken)
      answered := h.answered_told (h.ended _ member answered)
      notices := h.notices_told (task.ticket.call none) }

end

/-! ## Instances -/

section

variable {next : Instance σ} {rs : List Reply} {closed : Bool}

theorem Placed.workInstance (h : Placed es m) (found : Table.find? m.instances id = some i)
    (step : InstanceStep closed i rs next) (silent : i.phase.finished? = none) (log : List String) :
    Placed es
      { m with
        instances := Table.put m.instances id next
        replies := m.replies ++ rs
        log := log } := by
  have longer : m.replies ⊆ m.replies ++ rs := List.subset_append_left _ _
  exact
    { h with
      ended := fun entry member answered => (h.ended entry member answered).mono longer
      lines := fun j x there => Table.of_find?_put
        (P := fun j x => Lined (m.replies ++ rs) j x (untold es (some j)))
        ((h.lines id i found).work step silent)
        (fun j x there _ => (h.lines j x there).mono longer) there
      hosted := fun call j taken host => Table.exists_find?_put _ _ (h.hosted call j taken host)
      answered := fun call told => (h.answered call told).mono longer }

/-- An instance tells the end of the first of its calls. -/
theorem Placed.tellInstance (h : Placed es m) {key : CallKey}
    (found : Table.find? m.instances id = some i) (step : InstanceStep closed i rs next)
    (finished : i.phase.finished? = some key) (log : List String) :
    ∃ call, (untold es (some id)).head? = some call ∧
      Placed (es ++ [.told call])
        { m with
          instances := Table.put m.instances id next
          replies := m.replies ++ rs
          notices := m.notices ++ [key]
          log := log } := by
  obtain ⟨call, rest, first, rfl, answered, rfl, left⟩ := (h.lines id i found).tell step finished
  obtain ⟨taken, host, silent⟩ := mem_untold.1 (first ▸ List.mem_cons_self)
  have others : untold (es ++ [.told call]) (some id) = rest := by
    have once : (call :: rest).Nodup := first ▸ h.lawful.taken_nodup.filter _
    rw [untold_told, first, List.filter_cons_of_neg (by simp)]
    refine List.filter_eq_self.2 fun c member => decide_eq_true ?_
    rintro rfl
    exact (List.nodup_cons.1 once).1 member
  refine ⟨call, by rw [first]; rfl, ?_⟩
  rw [List.append_nil]
  exact
    { lawful := lawful_append_one.2 ⟨h.lawful, taken, silent⟩
      numbered := fun c taken => h.numbered c (by simpa using taken)
      tasks := (untold_told_other (by simp [host])).trans h.tasks
      own := h.own
      ended := h.ended
      lines := fun j x there => Table.of_find?_put
        (P := fun j x => Lined m.replies j x (untold (es ++ [.told call]) (some j)))
        (others.symm ▸ left)
        (fun j x there other => by
          rw [untold_told_other (by simpa [host] using other)]
          exact h.lines j x there) there
      hosted := fun c j taken host =>
        Table.exists_find?_put _ _ (h.hosted c j (by simpa using taken) host)
      answered := h.answered_told answered
      notices := h.notices_told call }

/-- An instance that was just defined has no calls. -/
theorem Placed.define (h : Placed es m) (name : String) (component : Component σ)
    (live : Table String Nat) :
    Placed es
      { m with
        serial := m.serial + 1
        live := live
        instances := m.instances ++ [(m.serial, newborn name component)] } := by
  refine
    { h with
      numbered := fun call taken => Nat.lt_succ_of_lt (h.numbered call taken)
      lines := fun j x there => ?_
      hosted := fun call j taken host => ?_ }
  · rw [Table.find?_append, Option.or_eq_some_iff] at there
    rcases there with old | ⟨absent, new⟩
    · exact h.lines j x old
    · have none : untold es (some j) = [] := by
        refine List.eq_nil_iff_forall_not_mem.2 fun call member => ?_
        obtain ⟨taken, host, -⟩ := mem_untold.1 member
        obtain ⟨y, known⟩ := h.hosted call j taken host
        simp [absent] at known
      rw [Table.find?_cons] at new
      split at new
      · cases new
        rw [none]
        exact ⟨[], .free rfl rfl, rfl⟩
      · cases new
  · obtain ⟨x, known⟩ := h.hosted call j taken host
    exact ⟨x, by rw [Table.find?_append, known]; rfl⟩

end

/-! ## What is noted -/

theorem Noted.frame (h : Noted es m) (books : k.books = m.books) (stopping : k.stopping = m.stopping)
    (marks : ∀ id, (Table.find? k.instances id).map Instance.deleted =
      (Table.find? m.instances id).map Instance.deleted) : Noted es k where
  books := books.trans h.books
  stopping := stopping ▸ h.stopping
  doomed id := marks id ▸ h.doomed id

/-- One more event is noted in the books. -/
theorem Noted.note (h : Noted es m) (books : k.books = m.books.note e)
    (stopping : k.stopping = true ↔ m.stopping = true ∨ e = .stopped)
    (marks : ∀ id, (Table.find? k.instances id).map Instance.deleted = some true ↔
      (Table.find? m.instances id).map Instance.deleted = some true ∨ e = .deleted id) :
    Noted (es ++ [e]) k where
  books := by rw [books, h.books, booksOf_append_one]
  stopping := by simp [stopping, h.stopping, eq_comm]
  doomed id := by simp [marks, ← h.doomed, eq_comm]

/-! ## Requests -/

theorem cancel_eq (m : Machine σ) (serial : Nat) (origin : ClientId) (tx : String) :
    m.cancel serial origin tx =
      { m with
        tripped := (Table.find? m.inflight (origin, tx)).toList ++ m.tripped
        replies := m.replies ++ [⟨serial, origin, none,
          if Table.has m.inflight (origin, tx) then .respondOk tx
          else .respondFault tx (.unknownTransaction tx)⟩] } := by
  unfold cancel Table.has
  split
  · next found => simp [found, answer]
  · next none => simp [none, answer]

/-- The instances that names in use refer to are not deleted. -/
def Named (m : Machine σ) : Prop := ∀ name id, Table.find? m.live name = some id →
  ∃ i, Table.find? m.instances id = some i ∧ i.deleted = false

theorem Kept.cancel (h : Kept es m) (origin : ClientId) (tx : String) :
    Kept (es ++ [.cancel (origin, tx)]) (m.handle (.cancel origin tx)) := by
  simp only [handle, cancel_eq]
  exact
    { placed := (h.placed.silent rfl rfl rfl).frame rfl rfl rfl (Nat.le_succ _)
        (List.subset_append_left _ _)
      noted := h.noted.note rfl (by simp) (by simp) }

/-- What is answered at once leaves the calls as they are. -/
theorem Kept.refused (h : Kept es m) (r : Reply) :
    Kept es ({ m with serial := m.serial + 1 }.answer r) where
  placed := h.placed.frame rfl rfl rfl (Nat.le_succ _) (List.subset_append_left _ _)
  noted := h.noted.frame rfl rfl fun _ => rfl

theorem Kept.callFunction (h : Kept es m) (name : String) (origin : ClientId) (packet : Packet) :
    Kept (es ++ (m.requestCall? (.execute origin (.function name) packet)).toList)
      (m.handle (.execute origin (.function name) packet)) := by
  simp only [handle, Machine.callFunction, requestCall?]
  cases m.registry.function? name with
  | none => simpa using h.refused _
  | some op =>
    exact
      { placed := h.placed.takeFunction (t := ⟨m.serial, origin, packet.tx, .function name, 0⟩) rfl
          op packet.args _
        noted := h.noted.note rfl (by simp) (by simp) }

theorem Kept.defineComponent (h : Kept es m) (bound : Table.Below m.serial m.instances)
    (type : String) (origin : ClientId) (packet : Packet) :
    Kept es (m.handle (.execute origin (.componentType type) packet)) := by
  simp only [handle, Machine.defineComponent]
  split
  · exact h.refused _
  · next name component made =>
    have absent : Table.find? m.instances m.serial = none := by
      cases found : Table.find? m.instances m.serial with
      | none => rfl
      | some i =>
        have below := bound.below _ (List.mem_map_of_mem (Table.mem_of_find? found))
        exact absurd below (Nat.lt_irrefl _)
    refine
      { placed := (h.placed.define name component (Table.put m.live name m.serial)).frame rfl rfl rfl
          (Nat.le_refl _) (List.subset_append_left _ _)
        noted := ⟨h.noted.books, h.noted.stopping, fun id => ?_⟩ }
    rw [h.noted.doomed]
    simp only [answer, Table.find?_append]
    by_cases same : m.serial = id
    · subst same
      simp [absent, Table.find?_cons]
    · simp [Table.find?_cons, same]

theorem Kept.deleteComponent (h : Kept es m) (named : Named m) (name : String) (origin : ClientId)
    (packet : Packet) :
    Kept (es ++ (m.requestCall? (.execute origin (.component name) packet)).toList)
      (m.handle (.execute origin (.component name) packet)) := by
  simp only [handle, Machine.deleteComponent, requestCall?]
  cases known : Table.find? m.live name with
  | none => simpa using h.refused _
  | some id =>
    obtain ⟨i, found, -⟩ := named name id known
    refine
      { placed := ((h.placed.mark id).silent (e := .deleted id) rfl rfl rfl).frame rfl rfl rfl
          (Nat.le_succ _) (List.Subset.refl _)
        noted := h.noted.note rfl (by simp) fun j => ?_ }
    simp only [Table.find?_modify, CallEvent.deleted.injEq]
    by_cases same : id = j
    · subst same
      simp [found]
    · simp [same]

theorem Kept.callMethod (h : Kept es m) (named : Named m) (name method : String)
    (origin : ClientId) (packet : Packet) :
    Kept (es ++ (m.requestCall? (.execute origin (.method name method) packet)).toList)
      (m.handle (.execute origin (.method name method) packet)) := by
  simp only [handle, Machine.callMethod, requestCall?]
  cases known : (Table.find? m.live name).bind fun id =>
      (Table.find? m.instances id).map fun i => (id, i) with
  | none => simpa using h.refused _
  | some entry =>
    obtain ⟨id, live, there⟩ := Option.bind_eq_some_iff.1 known
    obtain ⟨i, found, rfl⟩ := Option.map_eq_some_iff.1 there
    obtain ⟨x, same, kept⟩ := named name id live
    cases found.symm.trans same
    dsimp only [Option.map_some]
    split
    · have unmarked : .deleted id ∉ es := by simp [h.noted.doomed, found, kept]
      refine
        { placed := h.placed.takeMethod ⟨⟨m.serial, origin, packet.tx, .method name method, 0⟩,
            method, packet.args⟩ rfl found unmarked _
          noted := h.noted.note rfl (by simp) fun j => ?_ }
      simp only [Table.find?_modify, Option.map_map, reduceCtorEq, or_false]
      have same : (Instance.deleted ∘ fun x : Instance σ => if id = j then { x with mailbox :=
          x.mailbox ++ [⟨⟨m.serial, origin, packet.tx, .method name method, 0⟩, method,
            packet.args⟩] } else x) = Instance.deleted := by
        funext x
        simp only [Function.comp]
        split <;> rfl
      rw [same]
    · exact
        { placed := (h.placed.silent rfl rfl rfl).frame rfl rfl rfl (Nat.le_succ _)
            (List.subset_append_left _ _)
          noted := h.noted.note rfl (by simp [answer]) (by simp [answer]) }

theorem Kept.request (h : Kept es m) (tidy : m.Tidy m.serial) (named : Named m) (r : Request) :
    Kept (es ++ (m.requestCall? r).toList) (m.handle r) := by
  cases r with
  | cancel origin tx => exact h.cancel origin tx
  | execute origin target packet =>
    cases target with
    | function name => exact h.callFunction name origin packet
    | componentType type =>
      rw [requestCall?, Option.toList_none, List.append_nil]
      exact h.defineComponent tidy.instances type origin packet
    | component name => exact h.deleteComponent named name origin packet
    | method name method => exact h.callMethod named name method origin packet

/-! ## Every move -/

theorem Kept.notice (h : Kept es m) (step : m.move? .notice = some k) :
    Kept (es ++ (m.callEvent? es .notice).toList) k := by
  obtain ⟨key, rest, queue, rfl⟩ := notice_of_move step
  obtain ⟨call, waiting, split, next, same, others⟩ := h.placed.next_notice queue
  rw [callEvent?, next, others, ← same]
  exact
    { placed := h.placed.hear split _
      noted := h.noted.note rfl (by simp) (by simp) }

theorem Kept.task (h : Kept es m) (bound : Table.Below m.serial m.tasks) {now : Nat}
    (step : m.stepTask? id now = some k) :
    Kept (es ++ (m.callEvent? es (.task id now)).toList) k := by
  cases stepTask_step step with
  | @work task next rs found unanswered same last =>
    have none : m.callEvent? es (.task id now) = none := by
      simp only [callEvent?, found, Option.bind_some]
    rw [none, Option.toList_none, List.append_nil]
    exact
      { placed := h.placed.workTask found same last
        noted := h.noted.frame rfl rfl fun _ => rfl }
  | @tell task found answered =>
    simp only [callEvent?, found, Option.bind_some, answered]
    exact
      { placed := h.placed.tellTask bound found answered
        noted := h.noted.note rfl (by simp) (by simp) }

theorem Kept.instance (h : Kept es m) {now : Nat} (step : m.stepInstance? id now = some k) :
    Kept (es ++ (m.callEvent? es (.instance id now)).toList) k := by
  have move := stepInstance_move step
  have told (i : Instance σ) := notices_of_stepInstance (i := i) step
  cases move with
  | @work i next rs notices found worked =>
    have told : notices = m.notices ++ i.phase.finished?.toList := told i found
    have marks (j : Nat) : (Table.find? (Table.put m.instances id next) j).map Instance.deleted =
        (Table.find? m.instances j).map Instance.deleted := by
      rw [Table.find?_put]
      split
      · next same => rw [← same, found, Option.map_some, Option.map_some, worked.deleted]
      · rfl
    simp only [callEvent?, found, Option.bind_some]
    cases finished : i.phase.finished? with
    | none =>
      rw [finished, Option.toList_none, List.append_nil] at told
      subst told
      simp only [Option.isSome_none, Bool.false_eq_true, if_false, Option.toList_none,
        List.append_nil]
      exact
        { placed := h.placed.workInstance found worked finished _
          noted := h.noted.frame rfl rfl marks }
    | some key =>
      rw [finished, Option.toList_some] at told
      subst told
      obtain ⟨call, first, placed⟩ := h.placed.tellInstance found worked finished
        (m.log ++ i.hookLines)
      simp only [Option.isSome_some, if_true, first, Option.map_some, Option.toList_some]
      exact
        { placed := placed
          noted := h.noted.note rfl (by simp) fun j => by simp [marks] }

/-- Every move keeps what the log says. -/
theorem Kept.move (h : Kept es m) (tidy : m.Tidy m.serial) (named : Named m) {l : Move}
    (step : m.move? l = some k) : Kept (es ++ (m.callEvent? es l).toList) k := by
  cases l with
  | trip key =>
    obtain ⟨-, rfl⟩ := trip_of_move step
    exact
      { placed := (h.placed.silent rfl rfl rfl).frame rfl rfl rfl (Nat.le_refl _)
          (List.Subset.refl _)
        noted := h.noted.note rfl (by simp [Machine.trip]) (by simp [Machine.trip]) }
  | request r => exact handle_of_request step ▸ h.request tidy named r
  | stop =>
    cases step
    exact
      { placed := (h.placed.silent rfl rfl rfl).frame rfl rfl rfl (Nat.le_refl _)
          (List.Subset.refl _)
        noted := h.noted.note rfl (by simp [Machine.stop]) (by simp [Machine.stop]) }
  | halt =>
    obtain ⟨-, rfl⟩ := halt_of_move step
    simp only [callEvent?, Option.toList_none, List.append_nil]
    exact
      { placed := h.placed.frame rfl rfl rfl (Nat.le_refl _) (List.Subset.refl _)
        noted := h.noted.frame rfl rfl fun _ => rfl }
  | notice => exact h.notice step
  | task id now => exact h.task tidy.tasks step
  | «instance» id now => exact h.instance step
  | waiter id =>
    cases stepWaiter_move step
    simp only [callEvent?, Option.toList_none, List.append_nil]
    exact
      { placed := h.placed.frame rfl rfl rfl (Nat.le_refl _) (List.subset_append_left _ _)
        noted := h.noted.frame rfl rfl fun _ => rfl }

/-- In every run, the calls are where the log says, and what is noted of them is what it says. -/
theorem CallRun.kept (run : CallRun registry es m) : Kept es m := by
  induction run with
  | start => exact kept_init registry
  | move l before step ih =>
    obtain ⟨os, run⟩ := before.run
    have named : Named _ := fun name id known => by
      obtain ⟨i, found, -, kept⟩ := run.named known
      exact ⟨i, found, kept⟩
    exact ih.move run.orderly.tidy named step
  | exchange other before ih => exact ⟨{ ih.placed with }, { ih.noted with }⟩

end Patchbay.Machine
