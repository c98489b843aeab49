import Patchbay.Proofs.Machine.Unhindered

/-!
# Sequential instances

An instance that nobody hinders serves its calls as if they ran alone and one after the other: each
finds the component that the calls before it left, and is answered with what its body gives on that
component. A stream shows the component as it was when it was opened, however long it is driven.
-/

namespace Patchbay

variable {σ : Type}

/-! ## One call after the other -/

namespace Component

/-- A component after a call was served; a call that it has no method for leaves it as it is. -/
def serve (c : Component σ) (call : MethodCall) : Component σ :=
  match Table.find? c.methods call.method with
  | some method => c.ran call method
  | none => c

def serveAll (c : Component σ) (calls : List MethodCall) : Component σ := calls.foldl serve c

@[simp] theorem serveAll_nil (c : Component σ) : c.serveAll [] = c := rfl

@[simp] theorem serveAll_append_one (c : Component σ) (calls : List MethodCall)
    (call : MethodCall) : c.serveAll (calls ++ [call]) = (c.serveAll calls).serve call := by
  simp [serveAll]

theorem serve_of_known {c : Component σ} {call : MethodCall} {method : Method σ}
    (known : Table.find? c.methods call.method = some method) :
    c.serve call = c.ran call method := by
  rw [serve, known]

theorem serve_of_unknown {c : Component σ} {call : MethodCall}
    (unknown : Table.find? c.methods call.method = none) : c.serve call = c := by
  rw [serve, unknown]

/-- The body of a call opens a stream on a component. -/
def Opens (c : Component σ) (call : MethodCall) (s : Stream) : Prop :=
  ∃ run, Table.find? c.methods call.method = some (.streaming run) ∧
    (run c.state call.args).1 = .ok s

/-- All replies to a call whose body finds a component and that nobody cancels. -/
inductive Answers (c : Component σ) (name : String) (call : MethodCall) : List Reply → Prop where
  | unknown (unknown : Table.find? c.methods call.method = none) :
      Answers c name call [call.ticket.fail (.notFound "method" (name ++ "." ++ call.method))]
  | instant {run : σ → Value → Except Fault Value × σ}
      (known : Table.find? c.methods call.method = some (.instant run)) :
      Answers c name call [call.ticket.finish (run c.state call.args).1]
  | refused {run : σ → Value → Except Fault Stream × σ} {f : Fault}
      (known : Table.find? c.methods call.method = some (.streaming run))
      (refused : (run c.state call.args).1 = .error f) : Answers c name call [call.ticket.fail f]
  | stream {s : Stream} {rs : List Reply} (opens : c.Opens call s)
      (emits : Drive.Emits s call.ticket none rs none) : Answers c name call rs

/-- The replies to such a call so far: none, some of its stream, or all. -/
inductive Answering (c : Component σ) (name : String) (call : MethodCall) : List Reply → Prop where
  | silent : Answering c name call []
  | streaming {s : Stream} {rs : List Reply} {left : Ticket × Drive} (opens : c.Opens call s)
      (emits : Drive.Emits s call.ticket none rs (some left)) : Answering c name call rs
  | all {rs : List Reply} (answers : c.Answers name call rs) : Answering c name call rs

theorem Answers.terminal {c : Component σ} {name : String} {call : MethodCall} {rs : List Reply}
    (answers : c.Answers name call rs) :
    ∃ r ∈ rs, r.serial = call.ticket.serial ∧ r.packet.isTerminal = true := by
  have spent : call.ticket.Spend rs 0 := by
    cases answers with
    | unknown | refused => exact .last (.fail _)
    | instant => exact .last (call.ticket.finish_last _)
    | stream opens emits =>
      cases emits with
      | finished => exact .ending _ (.done _)
      | failed => exact .ending _ (.fail _)
  exact spent.terminal

theorem Answers.of_unknown {c : Component σ} {name : String} {call : MethodCall} {rs : List Reply}
    (answers : c.Answers name call rs) (unknown : Table.find? c.methods call.method = none) :
    rs = [call.ticket.fail (.notFound "method" (name ++ "." ++ call.method))] := by
  cases answers with
  | unknown => rfl
  | instant known | refused known => cases unknown.symm.trans known
  | stream opens =>
    obtain ⟨run, known, -⟩ := opens
    cases unknown.symm.trans known

theorem Answers.of_instant {c : Component σ} {name : String} {call : MethodCall} {rs : List Reply}
    {run : σ → Value → Except Fault Value × σ} (answers : c.Answers name call rs)
    (method : Table.find? c.methods call.method = some (.instant run)) :
    rs = [call.ticket.finish (run c.state call.args).1] := by
  cases answers with
  | unknown unknown => cases unknown.symm.trans method
  | instant known =>
    cases known.symm.trans method
    rfl
  | refused known => cases known.symm.trans method
  | stream opens =>
    obtain ⟨other, known, -⟩ := opens
    cases known.symm.trans method

theorem Answers.of_streaming {c : Component σ} {name : String} {call : MethodCall}
    {rs : List Reply} {run : σ → Value → Except Fault Stream × σ} (answers : c.Answers name call rs)
    (method : Table.find? c.methods call.method = some (.streaming run)) :
    (∃ f, (run c.state call.args).1 = .error f ∧ rs = [call.ticket.fail f]) ∨
      ∃ s, (run c.state call.args).1 = .ok s ∧ Drive.Emits s call.ticket none rs none := by
  cases answers with
  | unknown unknown => cases unknown.symm.trans method
  | instant known => cases known.symm.trans method
  | refused known refused =>
    cases known.symm.trans method
    exact .inl ⟨_, refused, rfl⟩
  | stream opens emits =>
    obtain ⟨other, known, opened⟩ := opens
    cases known.symm.trans method
    exact .inr ⟨_, opened, emits⟩

end Component

/-- What a look pays is paid for the call of the stream. -/
theorem Drive.Pulled.own {s : Stream} {t u : Ticket} {vs : List Value} {d : Drive}
    (pulled : Pulled s t vs u d) {rs : List Reply} {left : Multiset Ticket}
    (paid : u.Spend rs left) : ∀ r ∈ rs, r.serial = t.serial := by
  intro r member
  rw [paid.serial.1 r member, pulled.ticket, Ticket.after_serial]

namespace Machine

variable {registry : Registry σ} {m k n : Machine σ} {l : Move}
  {es later : List (Occurrence σ)} {id now : Nat} {i j : Instance σ} {call : MethodCall}
  {name : String} {first : Component σ} {done current before after : List MethodCall}

/-! ## The line of an unhindered instance -/

/-- How far an instance is behind the calls of `done`: between two calls, or at one. -/
inductive Stands (m : Machine σ) (first : Component σ) (i : Instance σ) (done : List MethodCall) :
    List MethodCall → Prop where
  | between (phase : i.phase.serving? = none) (component : i.component = first.serveAll done) :
      Stands m first i done []
  | begun {call : MethodCall} {method : Method σ} (phase : i.phase = .begun call method)
      (component : i.component = first.serveAll done) : Stands m first i done [call]
  | driving {call : MethodCall} {s : Stream} {t : Ticket} {d : Drive} {vs : List Value}
      (phase : i.phase = .driving t d)
      (component : i.component = (first.serveAll done).serve call)
      (opens : (first.serveAll done).Opens call s)
      (pulled : Drive.Pulled s call.ticket vs t d)
      (sent : m.repliesTo call.ticket.serial = call.ticket.outputs vs.dropLast) :
      Stands m first i done [call]

/-- An instance has served the calls of `done`, each as if it ran alone behind those before it. -/
structure Sequential (es : List (Occurrence σ)) (m : Machine σ) (id : Nat) (first : Component σ)
    (i : Instance σ) (done current : List MethodCall) : Prop where
  line : callsOn id es = done ++ current ++ i.waiting
  stands : Stands m first i done current
  answered : ∀ before call after, done = before ++ call :: after →
    (first.serveAll before).Answers i.name call (m.repliesTo call.ticket.serial)

/-- An instance that is there was defined before. -/
theorem defined_of_shift (change : Change m l (m.effects l) k)
    (shift : Shift m l k id i (m.effects l) j)
    (defined : .defined id name first ∈ es ++ m.occurrences l k) : .defined id name first ∈ es := by
  rcases List.mem_append.1 defined with old | new
  · exact old
  · rw [mem_occurrences change rfl] at new
    cases shift with
    | rest others silent => exact absurd rfl (silent _ new)
    | mark asks named effects => simp [effects] at new
    | queue asks named accepts serial replies effects => simp [effects] at new
    | work moves worked replies effects => simp [effects, Instance.mem_effects] at new

/-- Where one entry of two lists in a row stands. -/
theorem split_append {α : Type} {as bs front back : List α} {x : α}
    (split : as ++ bs = front ++ x :: back) :
    (∃ rest, as = front ++ x :: rest ∧ back = rest ++ bs) ∨
      ∃ rest, front = as ++ rest ∧ bs = rest ++ x :: back := by
  rcases List.append_eq_append_iff.1 split with ⟨rest, rfl, here⟩ | ⟨rest, rfl, here⟩
  · exact .inr ⟨rest, rfl, here⟩
  · cases rest with
    | nil => exact .inr ⟨[], by simp, here.symm⟩
    | cons y rest =>
      obtain ⟨rfl, rfl⟩ := List.cons.inj here
      exact .inl ⟨rest, rfl, rfl⟩

theorem Stands.of_idle (stands : Stands m first i done current)
    (idle : i.phase.serving? = none) : current = [] ∧ i.component = first.serveAll done := by
  cases stands with
  | between phase component => exact ⟨rfl, component⟩
  | begun phase | driving phase =>
    rw [phase] at idle
    cases idle

theorem Stands.of_begun {method : Method σ} (stands : Stands m first i done current)
    (begun : i.phase = .begun call method) :
    current = [call] ∧ i.component = first.serveAll done := by
  cases stands with
  | between phase =>
    rw [begun] at phase
    cases phase
  | begun phase component =>
    cases phase.symm.trans begun
    exact ⟨rfl, component⟩
  | driving phase => cases phase.symm.trans begun

theorem Stands.of_driving {t : Ticket} {d : Drive} (stands : Stands m first i done current)
    (driving : i.phase = .driving t d) :
    ∃ call s vs, current = [call] ∧ i.component = (first.serveAll done).serve call ∧
      (first.serveAll done).Opens call s ∧ Drive.Pulled s call.ticket vs t d ∧
      m.repliesTo call.ticket.serial = call.ticket.outputs vs.dropLast := by
  cases stands with
  | between phase =>
    rw [driving] at phase
    cases phase
  | begun phase => cases phase.symm.trans driving
  | driving phase component opens pulled sent =>
    cases phase.symm.trans driving
    exact ⟨_, _, _, rfl, component, opens, pulled, sent⟩

/-- Who does not move stands where it stood. -/
theorem Stands.of_other (stands : Stands m first i done current) (run : Run (init registry) es m)
    (found : Table.find? m.instances id = some i) (other : l.holder? ≠ some (.instance id))
    (step : m.move? l = some k) (phase : j.phase = i.phase)
    (component : j.component = i.component) : Stands k first j done current := by
  cases stands with
  | between at_ made => exact .between (phase ▸ at_) (component.trans made)
  | begun at_ made => exact .begun (phase.trans at_) (component.trans made)
  | @driving call s t d vs at_ made opens pulled sent =>
    have held : t ∈ m.heldAt (.instance id) := by
      rw [heldAt_instance found]
      exact mem_heldInstance.2 (.inl (by rw [at_]; rfl))
    have serial : t.serial = call.ticket.serial := by rw [pulled.ticket, Ticket.after_serial]
    have quiet := repliesTo_of_other run.orderly held other step
    rw [serial] at quiet
    exact .driving (phase.trans at_) (component.trans made) opens pulled (quiet.trans sent)

/-- What was answered is answered. -/
theorem Sequential.answered_of_move (h : Sequential es m id first i done current)
    (run : Run (init registry) es m) (step : m.move? l = some k)
    (split : done = before ++ call :: after) :
    (first.serveAll before).Answers i.name call (k.repliesTo call.ticket.serial) := by
  have answers := h.answered before call after split
  have queued : .queued id call ∈ es := by
    rw [← mem_callsOn, h.line, split]
    simp
  obtain ⟨origin, target, packet, asked⟩ := run.owed queued
  obtain ⟨r, sent, -, last⟩ := answers.terminal
  rwa [repliesTo_of_terminal run.orderly asked sent last step]

/-- The call that an instance is at, or takes next, is one of its line. -/
theorem Sequential.kept (h : Sequential es m id first i done current)
    (free : Unhindered es m id i) {t : Ticket} (at_ : i.phase.ticket? = some t) :
    m.isCancelled t = false := by
  obtain ⟨call, member, serial⟩ : ∃ call ∈ current ++ i.waiting,
      call.ticket.serial = t.serial := by
    cases phase : i.phase with
    | taken call =>
      rw [phase] at at_
      cases at_
      exact ⟨call, by simp [Instance.waiting, phase], rfl⟩
    | begun call method =>
      rw [phase] at at_
      cases at_
      obtain ⟨rfl, -⟩ := h.stands.of_begun phase
      exact ⟨call, by simp, rfl⟩
    | driving u d =>
      rw [phase] at at_
      cases at_
      obtain ⟨call, s, vs, rfl, -, -, pulled, -⟩ := h.stands.of_driving phase
      exact ⟨call, by simp, by rw [pulled.ticket, Ticket.after_serial]⟩
    | _ =>
      rw [phase] at at_
      cases at_
  have lined : call ∈ callsOn id es := by
    rw [h.line, List.append_assoc]
    exact List.mem_append_right _ member
  have kept := free.kept call lined
  rwa [isCancelled, serial] at kept

/-- A move answers the next call. -/
theorem Sequential.answer (h : Sequential es m id first i done current) (call : MethodCall)
    (run : Run (init registry) es m) (step : m.move? l = some k)
    (line : callsOn id (es ++ m.occurrences l k) = done ++ [call] ++ j.waiting)
    (idle : j.phase.serving? = none) (name : j.name = i.name)
    (component : j.component = (first.serveAll done).serve call)
    (answers : (first.serveAll done).Answers i.name call (k.repliesTo call.ticket.serial)) :
    ∃ done current, Sequential (es ++ m.occurrences l k) k id first j done current := by
  refine ⟨done ++ [call], [], ?_, .between idle ?_, fun before other after split => ?_⟩
  · rw [List.append_nil, line]
  · rw [Component.serveAll_append_one, component]
  · rw [name]
    rcases split_append split with ⟨rest, earlier, -⟩ | ⟨rest, rfl, here⟩
    · exact h.answered_of_move run step earlier
    · obtain ⟨rfl, rfl, rfl⟩ : rest = [] ∧ other = call ∧ after = [] := by
        simpa [List.singleton_eq_append_iff] using here
      rwa [List.append_nil]

/-- One move of an instance that nobody hinders begins the next call, works on the one that it is
at, or answers it. -/
theorem Sequential.serves (h : Sequential es m id first i done current)
    (run : Run (init registry) es m) (found : Table.find? m.instances id = some i)
    (step : m.move? l = some k) (uncalled : callsOn id (m.occurrences l k) = []) {rs : List Reply}
    (serves : i.Serves now rs j) (replies : k.replies = m.replies ++ rs) :
    ∃ done current, Sequential (es ++ m.occurrences l k) k id first j done current := by
  have line {all : List MethodCall} (same : done ++ current ++ i.waiting = all) :
      callsOn id (es ++ m.occurrences l k) = all := by
    rw [callsOn_append, uncalled, List.append_nil, h.line, same]
  have sent (call : MethodCall) (own : ∀ r ∈ rs, r.serial = call.ticket.serial) :
      k.repliesTo call.ticket.serial = m.repliesTo call.ticket.serial ++ rs :=
    repliesTo_append replies own
  have answered : ∀ before call after, done = before ++ call :: after →
      (first.serveAll before).Answers i.name call (k.repliesTo call.ticket.serial) :=
    fun _ _ _ split => h.answered_of_move run step split
  -- wherever the instance stands, its component is what the calls of `done` left of the first one
  cases serves with
  | take phase queue =>
    obtain ⟨rfl, made⟩ := h.stands.of_idle (by rw [phase]; rfl)
    refine ⟨done, [], line ?_, .between rfl made, answered⟩
    simp [Instance.waiting, phase, queue]
  | @unknown call phase unknown =>
    obtain ⟨rfl, made⟩ := h.stands.of_idle (by rw [phase]; rfl)
    have waits : call ∈ i.waiting := by simp [Instance.waiting, phase]
    have silent := run.silent_waiting found waits
    rw [made] at unknown
    refine h.answer call run step (line (by simp [Instance.waiting, phase])) rfl rfl ?_ ?_
    · rw [Component.serve_of_unknown unknown, made]
    · rw [sent call (by simp [Ticket.fail, Ticket.reply]), silent]
      exact .unknown unknown
  | @start call method phase known =>
    obtain ⟨rfl, made⟩ := h.stands.of_idle (by rw [phase]; rfl)
    refine ⟨done, [call], line ?_, .begun rfl made, answered⟩
    simp [Instance.waiting, phase]
  | @answer call body phase =>
    obtain ⟨rfl, made⟩ := h.stands.of_begun phase
    have silent := run.silent_begun found phase
    have known := run.begun_method found phase
    rw [made] at known
    refine h.answer call run step (line (by simp [Instance.waiting, phase])) rfl rfl ?_ ?_
    · rw [Component.serve_of_known known, made]
    · rw [sent call (by simp [(call.ticket.finish_last _).serial]), silent, made]
      exact .instant known
  | @refuse call body f phase refused =>
    obtain ⟨rfl, made⟩ := h.stands.of_begun phase
    have silent := run.silent_begun found phase
    have known := run.begun_method found phase
    rw [made] at known refused
    refine h.answer call run step (line (by simp [Instance.waiting, phase])) rfl rfl ?_ ?_
    · rw [Component.serve_of_known known, made]
    · rw [sent call (by simp [Ticket.fail, Ticket.reply]), silent]
      exact .refused known refused
  | @stream call body s phase opened =>
    obtain ⟨rfl, made⟩ := h.stands.of_begun phase
    have silent := run.silent_begun found phase
    have known := run.begun_method found phase
    rw [made] at known opened
    refine ⟨done, [call], line ?_, .driving rfl ?_ ⟨body, known, opened⟩
      (Drive.pulled_start s call.ticket now) ?_, answered⟩
    · simp [Instance.waiting, phase]
    · rw [Component.serve_of_known known, made]
    · rw [sent call (by simp), silent]
      rfl
  | @drive t u d e rs phase more =>
    obtain ⟨call, s, vs, rfl, made, opens, pulled, streamed⟩ := h.stands.of_driving phase
    have own := pulled.own (more ▸ d.advance_paid t false now)
    have moved := pulled.advance ⟨false, now⟩
    rw [more] at moved
    obtain ⟨-, ws, next, outputs⟩ := moved
    refine ⟨done, [call], line ?_, .driving rfl made opens next ?_, answered⟩
    · simp [Instance.waiting, phase]
    · rw [sent call own, streamed, outputs]
  | @finish t d rs phase ended =>
    obtain ⟨call, s, vs, rfl, made, opens, pulled, streamed⟩ := h.stands.of_driving phase
    have own := pulled.own (ended ▸ d.advance_paid t false now)
    have moved := pulled.advance ⟨false, now⟩
    rw [ended] at moved
    refine h.answer call run step (line (by simp [Instance.waiting, phase])) rfl rfl made ?_
    rw [sent call own, streamed]
    exact .stream opens (by simpa using moved)
  | resume phase =>
    obtain ⟨rfl, made⟩ := h.stands.of_idle (by rw [phase]; rfl)
    refine ⟨done, [], line ?_, .between rfl made, answered⟩
    simp [Instance.waiting, phase]

/-- An instance that nobody hindered has served its calls as if each ran alone. -/
theorem Run.sequential (run : Run (init registry) es m)
    (found : Table.find? m.instances id = some i) (defined : .defined id name first ∈ es)
    (free : Unhindered es m id i) : ∃ done current, Sequential es m id first i done current := by
  refine Run.instance_induction (P := fun es m id i => Table.find? m.instances id = some i →
    .defined id name first ∈ es → Unhindered es m id i →
      ∃ done current, Sequential es m id first i done current) ?_ ?_ ?_ run found found defined free
  · intro es n k l id title component before step absent effects found defined free
    have fresh : ∀ o ∈ es, o.instance? ≠ some id := by
      intro o member touches
      obtain ⟨x, there⟩ := before.known member touches
      rw [absent] at there
      cases there
    obtain ⟨-, rfl⟩ : name = title ∧ first = component := by
      rcases List.mem_append.1 defined with old | new
      · exact absurd rfl (fresh _ old)
      · rw [mem_occurrences (move_change step) rfl, effects, List.mem_singleton] at new
        cases new
        exact ⟨rfl, rfl⟩
    refine ⟨[], [], ?_, .between rfl rfl, by simp⟩
    rw [callsOn_append, callsOn_occurrences, effects,
      callsOn_eq_nil fun call member => fresh _ member rfl]
    rfl
  · intro es n k l id i j before step there ih shift found defined free
    have change := move_change step
    have calm := free.of_move step shift
    obtain ⟨done, current, h⟩ := ih there (defined_of_shift change shift defined) calm
    have quiet (other : l.holder? ≠ some (.instance id)) (phase : j.phase = i.phase)
        (component : j.component = i.component) : Stands k first j done current :=
      h.stands.of_other before there other step phase component
    have answered : ∀ before call after, done = before ++ call :: after →
        (first.serveAll before).Answers i.name call (k.repliesTo call.ticket.serial) :=
      fun _ _ _ split => h.answered_of_move before step split
    cases shift with
    | rest others silent =>
      refine ⟨done, current, ?_, quiet others rfl rfl, answered⟩
      rw [callsOn_append, callsOn_occurrences, callsOn_eq_nil fun call member =>
        silent _ member rfl, List.append_nil, h.line]
    | mark asks named effects =>
      -- a delete would have closed the instance
      have closed : k.isClosed { i with deleted := true } = true := by simp [isClosed]
      exact absurd closed (Bool.eq_false_iff.1 free.isOpen)
    | @queue name call asks named accepts serial replies effects =>
      refine ⟨done, current, ?_, quiet (by simp [asks]) rfl rfl, answered⟩
      have one : callsOn id [Occurrence.queued (σ := σ) id call] = [call] := by
        simp [callsOn, Occurrence.call?]
      rw [callsOn_append, callsOn_occurrences, effects, one, Instance.waiting_queue, h.line,
        List.append_assoc]
    | work moves worked replies effects =>
      obtain ⟨now, rfl⟩ := instance_of_holder moves
      obtain ⟨rs, next, serves, told, here⟩ := stepInstance_serves step there calm.isOpen
        (before.accepts there calm.isOpen) fun t => h.kept calm
      cases here.symm.trans found
      have uncalled : callsOn id (n.occurrences (.instance id now) k) = [] := by
        rw [callsOn_occurrences, effects]
        exact callsOn_eq_nil (by simp [Instance.mem_effects])
      exact h.serves before there step uncalled serves told
  · intro es n id i other ih found defined free
    obtain ⟨done, current, h⟩ := ih found defined ⟨free.isOpen, free.kept⟩
    refine ⟨done, current, h.line, ?_, h.answered⟩
    cases h.stands with
    | between phase component => exact .between phase component
    | begun phase component => exact .begun phase component
    | driving phase component opens pulled sent => exact .driving phase component opens pulled sent

/-! ## What the calls get -/

/-- A call of the line was answered, or is the one that the instance is at, or waits. -/
theorem Sequential.place (h : Sequential es m id first i done current)
    (split : callsOn id es = before ++ call :: after) :
    (∃ rest, done = before ++ call :: rest) ∨ (before = done ∧ current = [call]) ∨
      call ∈ i.waiting := by
  rw [h.line, List.append_assoc] at split
  rcases split_append split with ⟨rest, served, -⟩ | ⟨rest, rfl, behind⟩
  · exact .inl ⟨rest, served⟩
  · rcases split_append behind with ⟨more, at_, -⟩ | ⟨more, -, waits⟩
    · cases h.stands with
      | between => simp at at_
      | begun | driving =>
        obtain ⟨rfl, rfl, -⟩ : rest = [] ∧ call = _ ∧ more = [] := by
          simpa [List.singleton_eq_append_iff] using at_
        exact .inr (.inl ⟨List.append_nil _, rfl⟩)
    · exact .inr (.inr (waits ▸ by simp))

theorem Sequential.pending (h : Sequential es m id first i done current)
    (run : Run (init registry) es m) (found : Table.find? m.instances id = some i)
    (member : call ∈ current ++ i.waiting) : m.Pending call.ticket.serial := by
  rw [pending_iff run.orderly.tidy]
  have held {t : Ticket} (here : t ∈ i.held) : t ∈ m.held :=
    Multiset.mem_of_le (m.heldAt_le (.instance id)) (heldAt_instance found ▸ here)
  rcases List.mem_append.1 member with at_ | waits
  · cases h.stands with
    | between => cases at_
    | begun phase =>
      cases List.mem_singleton.1 at_
      exact ⟨call.ticket, held (mem_heldInstance.2 (.inl (by rw [phase]; rfl))), rfl⟩
    | driving phase component opens pulled =>
      cases List.mem_singleton.1 at_
      refine ⟨_, held (mem_heldInstance.2 (.inl (by rw [phase]; rfl))), ?_⟩
      rw [pulled.ticket, Ticket.after_serial]
  · exact ⟨call.ticket, held (Instance.held_of_waiting waits), rfl⟩

theorem Sequential.settled (h : Sequential es m id first i done current)
    (run : Run (init registry) es m) (split : done = before ++ call :: after) :
    ¬ m.Pending call.ticket.serial := by
  have queued : .queued id call ∈ es := by
    rw [← mem_callsOn, h.line, split]
    simp
  obtain ⟨origin, target, packet, asked⟩ := run.owed queued
  obtain ⟨r, sent, -, last⟩ := (h.answered before call after split).terminal
  rw [pending_iff run.orderly.tidy]
  rintro ⟨t, held, serial⟩
  exact run.orderly.released asked sent last t held serial

/-- A call is answered by what its body gives on the component that the calls before it left. -/
theorem Sequential.answering (h : Sequential es m id first i done current)
    (run : Run (init registry) es m) (found : Table.find? m.instances id = some i)
    (split : callsOn id es = before ++ call :: after) :
    (first.serveAll before).Answering i.name call (m.repliesTo call.ticket.serial) ∧
      (¬ m.Pending call.ticket.serial →
        (first.serveAll before).Answers i.name call (m.repliesTo call.ticket.serial)) := by
  rcases h.place split with ⟨rest, served⟩ | ⟨rfl, at_⟩ | waits
  · have answers := h.answered before call rest served
    exact ⟨.all answers, fun _ => answers⟩
  · refine ⟨?_, fun settled => absurd (h.pending run found (by simp [at_])) settled⟩
    cases h.stands with
    | between => cases at_
    | begun phase =>
      cases at_
      rw [run.silent_begun found phase]
      exact .silent
    | driving phase component opens pulled sent =>
      cases at_
      rw [sent]
      exact .streaming opens (.going pulled)
  · refine ⟨?_, fun settled => absurd (h.pending run found (by simp [waits])) settled⟩
    rw [run.silent_waiting found waits]
    exact .silent

end Machine

end Patchbay
