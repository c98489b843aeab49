import Patchbay.Proofs.Machine.Promptness
import Patchbay.Modules

/-!
# The accumulator as a shared log

Whoever calls an accumulator, and whenever its streams are driven: each call is answered from the
strings that were put before it in the line. A put appends its string, a put without one changes
nothing, and a replay yields the strings that were put before it, whatever is put while it streams.
-/

namespace Patchbay

/-! ## Streams that end -/

/-- A stream with these values, as the replies to a call: outputs of which the last is done, or one
null for none. -/
def Ticket.stream (t : Ticket) (vs : List Value) : List Reply :=
  t.outputs vs.dropLast ++ [(t.after vs.dropLast).done (vs.getLast?.getD .null)]

namespace Stream

theorem paced_element? (pause : Nat) (items : List Value) (n : Nat) :
    (paced pause items).element? n =
      some (match items[n]? with
        | some v => .value v
        | none => .finished) := by
  cases items with
  | nil => rfl
  | cons first rest =>
    cases n with
    | zero => rfl
    | succ n =>
      simp only [element?, paced, ofPulls, List.getElem?_cons_succ, Array.getD_eq_getD_getElem?,
        List.getElem?_toArray, List.getElem?_map]
      cases rest[n]? <;> rfl

variable {pause : Nat} {items vs : List Value} {t : Ticket} {rs : List Reply}

theorem paced_endsAt (pause : Nat) (items : List Value) :
    (paced pause items).EndsAt items.length := by
  refine .inl ?_
  rw [paced_element?, List.getElem?_eq_none (Nat.le_refl _)]

theorem prefix_of_yields (yields : (paced pause items).Yields vs) : vs <+: items := by
  refine List.prefix_iff_getElem?.2 fun i inside => ?_
  have here := yields i vs[i] (List.getElem?_eq_getElem inside)
  rw [paced_element?] at here
  split at here
  · next v there =>
    cases here
    exact there
  · cases here

/-- What is sent of a paced stream that comes to its end. -/
theorem emits_paced (emits : Drive.Emits (paced pause items) t none rs none) :
    rs = t.stream items := by
  cases emits with
  | @finished vs yields ends =>
    rw [paced_element?] at ends
    split at ends
    · cases ends
    · next behind =>
      have far := List.getElem?_eq_none_iff.1 behind
      rw [(prefix_of_yields yields).eq_of_length_le far]
      rfl
  | @failed vs f yields fails =>
    rw [paced_element?] at fails
    split at fails <;> cases fails

theorem prefix_of_emits {left : Ticket × Drive}
    (emits : Drive.Emits (paced pause items) t none rs (some left)) : rs <+: t.stream items := by
  cases emits with
  | @going vs u d pulled =>
    obtain ⟨rest, rfl⟩ := prefix_of_yields pulled.yields
    have front : vs.dropLast <+: (vs ++ rest).dropLast := by
      cases rest with
      | nil => simp
      | cons v rest =>
        rw [List.dropLast_append_of_ne_nil (by simp)]
        exact (List.dropLast_prefix vs).trans (List.prefix_append _ _)
    obtain ⟨more, same⟩ := front
    rw [Ticket.stream, ← same, Ticket.outputs_append, List.append_assoc]
    exact List.prefix_append _ _

end Stream

theorem Component.find?_lift {α σ : Type} (e : Embedding α σ) (c : Component α) (name : String) :
    Table.find? (c.lift e).methods name = (Table.find? c.methods name).map (Method.lift e) := by
  obtain ⟨state, methods, teardown⟩ := c
  change Table.find? (methods.map fun entry => (entry.1, entry.2.lift e)) name =
    (Table.find? methods name).map (Method.lift e)
  induction methods with
  | nil => rfl
  | cons entry rest ih =>
    rw [List.map_cons, Table.find?_cons, Table.find?_cons, ih]
    split <;> rfl

namespace Modules

/-! ## Arguments -/

variable {op field : String} {v : Value} {s : String}

theorem string_ok_iff :
    ((Args.ofValue op v).bind fun a => a.string field) = .ok s ↔
      v.get? field = some (.string s) := by
  have found (fields : Fields) : Args.string ⟨op, fields⟩ field = .ok s ↔
      fields.find field = some (.string s) := by
    simp only [Args.string, Args.requiredAs, Args.required]
    cases fields.find field with
    | none => simp [bind, Except.bind]
    | some w => cases w <;> simp [bind, Except.bind, Value.asString?]
  cases v with
  | map fields => exact found fields
  | null => exact found []
  | _ => simp [Args.ofValue, Except.bind, Value.get?, Value.asMap?]

theorem string?_ok (op : String) {found : Option String}
    (accepted : ((Args.ofValue op v).bind fun a => a.string? field) = .ok found) :
    (v.get? field).bind Value.asString? = found := by
  have given {fields : Fields} (accepted : Args.string? ⟨op, fields⟩ field = .ok found) :
      (fields.find field).bind Value.asString? = found := by
    simp only [Args.string?, Args.optionalAs] at accepted
    cases there : fields.find field with
    | none =>
      rw [there] at accepted
      exact Except.ok.inj accepted
    | some w =>
      rw [there] at accepted
      cases w <;> cases accepted <;> rfl
  cases v with
  | map fields => exact given accepted
  | null => exact given accepted
  | _ => cases accepted

namespace Accumulator

/-- Arguments that a replay takes: a map, or null for an empty one, in which the pause is absent,
null, or from zero to its limit. -/
def Replayable (args : Value) : Prop :=
  (args = .null ∨ ∃ fields, args = .map fields) ∧
    (args.get? "interval_ms" = none ∨ args.get? "interval_ms" = some .null ∨
      ∃ ms : Int64, args.get? "interval_ms" = some (.int ms) ∧ 0 ≤ ms ∧ ms ≤ pauseLimit)

theorem pause_ok_iff {args : Value} :
    (∃ ms, ((Args.ofValue "replay" args).bind fun a => pause a 0) = .ok ms) ↔ Replayable args := by
  have found (fields : Fields) : (∃ ms, pause ⟨"replay", fields⟩ 0 = .ok ms) ↔
      (fields.find "interval_ms" = none ∨ fields.find "interval_ms" = some .null ∨
        ∃ ms : Int64, fields.find "interval_ms" = some (.int ms) ∧ 0 ≤ ms ∧ ms ≤ pauseLimit) := by
    simp only [pause, Args.int?, Args.optionalAs]
    cases fields.find "interval_ms" with
    | none => simp [bind, Except.bind, pure, Except.pure]
    | some w =>
      cases w with
      | int ms =>
        by_cases inside : 0 ≤ ms ∧ ms ≤ pauseLimit <;>
          simp [bind, Except.bind, pure, Except.pure, Value.asInt?, inside]
      | _ => simp [bind, Except.bind, pure, Except.pure, Value.asInt?]
  cases args with
  | map fields => exact (found fields).trans (by simp [Replayable, Value.get?, Value.asMap?])
  | null => exact (found []).trans (by simp [Replayable, Value.get?, Value.asMap?, Fields.find])
  | _ => simp [Args.ofValue, Except.bind, Replayable]

/-! ## The log -/

/-- The base that the arguments of an accumulator give. -/
def baseOf (args : Value) : String := ((args.get? "base").bind Value.asString?).getD ""

/-- The string that a call puts: a put with one. -/
def puts? (call : MethodCall) : Option String :=
  if call.method = "put" then (call.args.get? "s").bind Value.asString? else none

/-- The strings that some calls put, in order. -/
def logOf (calls : List MethodCall) : List String := calls.filterMap puts?

/-- One text of the base and the strings of a log behind it. -/
def textOf (base : String) (log : List String) : Value :=
  .map [("text", .string (String.join (base :: log)))]

/-- All replies to a call on the accumulator `name` with this base, when `log` was put before it. -/
inductive Answers (name base : String) (log : List String) (call : MethodCall) :
    List Reply → Prop where
  | put {s : String} (method : call.method = "put")
      (string : call.args.get? "s" = some (.string s)) :
      Answers name base log call [call.ticket.done (textOf base (log ++ [s]))]
  | badPut (method : call.method = "put") (bad : ∀ s, call.args.get? "s" ≠ some (.string s))
      (f : Fault) : Answers name base log call [call.ticket.fail f]
  | get (method : call.method = "get") :
      Answers name base log call [call.ticket.done (textOf base log)]
  | count (method : call.method = "count") :
      Answers name base log call [call.ticket.done (.map [("count", Value.ofNat log.length)])]
  | replay (method : call.method = "replay") (acceptable : Replayable call.args) :
      Answers name base log call
        (call.ticket.stream (log.map fun s => .map [("s", .string s)]))
  | badReplay (method : call.method = "replay") (bad : ¬ Replayable call.args) (f : Fault) :
      Answers name base log call [call.ticket.fail f]
  | unknown (method : call.method ∉ ["put", "get", "count", "replay"]) :
      Answers name base log call
        [call.ticket.fail (.notFound "method" (name ++ "." ++ call.method))]

/-! ## Bodies -/

theorem text_eq (a : Accumulator) : a.textOutput = textOf a.base a.chunks := by
  simp [textOutput, text, textOf, String.join]

theorem put_of_string {a : Accumulator} {args : Value} (string : args.get? "s" = some (.string s)) :
    a.put args = (.ok (textOf a.base (a.chunks ++ [s])), { a with chunks := a.chunks ++ [s] }) := by
  have accepted : ((Args.ofValue "put" args).bind fun b => b.string "s") = .ok s :=
    string_ok_iff.2 string
  simp only [put, accepted, text_eq]

theorem put_of_bad {a : Accumulator} {args : Value}
    (bad : ∀ s, args.get? "s" ≠ some (.string s)) : ∃ f, a.put args = (.error f, a) := by
  cases checked : (Args.ofValue "put" args).bind fun b => b.string "s" with
  | ok s => exact absurd (string_ok_iff.1 checked) (bad s)
  | error f => exact ⟨f, by simp only [put, checked]⟩

/-- A replay opens a stream of the log, if its pause is accepted. -/
theorem replay_eq (a : Accumulator) (args : Value) :
    a.replay args = (((Args.ofValue "replay" args).bind fun b => pause b 0).map fun ms =>
      Stream.paced ms (a.chunks.map fun s => .map [("s", .string s)]), a) := by
  unfold replay
  cases Args.ofValue "replay" args with
  | error f => rfl
  | ok b =>
    simp only [Except.bind, bind]
    cases pause b 0 <;> rfl

theorem replay_of_replayable (a : Accumulator) {args : Value} (acceptable : Replayable args) :
    ∃ ms, a.replay args =
      (.ok (Stream.paced ms (a.chunks.map fun s => .map [("s", .string s)])), a) := by
  obtain ⟨ms, accepted⟩ := pause_ok_iff.2 acceptable
  exact ⟨ms, by rw [replay_eq, accepted]; rfl⟩

theorem replay_of_bad (a : Accumulator) {args : Value} (bad : ¬ Replayable args) :
    ∃ f, a.replay args = (.error f, a) := by
  rw [replay_eq]
  cases checked : (Args.ofValue "replay" args).bind fun b => pause b 0 with
  | ok ms => exact absurd (pause_ok_iff.1 ⟨ms, checked⟩) bad
  | error f => exact ⟨f, rfl⟩

/-! ## The component -/

def methods : Table String (Method Accumulator) :=
  [("put", .instant put), ("get", .instant get), ("count", .instant count),
    ("replay", .streaming replay)]

/-- An accumulator among the components of a machine. -/
def component (a : Accumulator) : Component State :=
  Component.lift accumulators ⟨a, methods, fun _ => []⟩

variable {a : Accumulator} {call : MethodCall} {name base : String} {log : List String}
  {rs : List Reply} {stream : Stream}

theorem eq_component {args : Value} {c : Component State}
    (made : Factory.lift accumulators factory args = .ok c) : c = component ⟨baseOf args, []⟩ := by
  unfold Factory.lift factory at made
  cases read : Args.ofValue "accumulator" args with
  | error f =>
    rw [read] at made
    cases made
  | ok b =>
    rw [read] at made
    cases based : b.string? "base" with
    | error f =>
      simp only [bind, Except.bind, based] at made
      cases made
    | ok found =>
      have given : (args.get? "base").bind Value.asString? = found :=
        string?_ok "accumulator" (by rw [read]; exact based)
      simp only [bind, Except.bind, based] at made
      cases made
      rw [baseOf, given]
      rfl

/-- The methods that a call can name, and none for any other name. -/
theorem method_cases (call : MethodCall) :
    (call.method = "put" ∧ Table.find? methods call.method = some (.instant put)) ∨
      (call.method = "get" ∧ Table.find? methods call.method = some (.instant get)) ∨
      (call.method = "count" ∧ Table.find? methods call.method = some (.instant count)) ∨
      (call.method = "replay" ∧ Table.find? methods call.method = some (.streaming replay)) ∨
      call.method ∉ ["put", "get", "count", "replay"] ∧
        Table.find? methods call.method = none := by
  by_cases put : call.method = "put"
  · exact .inl ⟨put, by rw [put]; rfl⟩
  by_cases get : call.method = "get"
  · exact .inr (.inl ⟨get, by rw [get]; rfl⟩)
  by_cases count : call.method = "count"
  · exact .inr (.inr (.inl ⟨count, by rw [count]; rfl⟩))
  by_cases replay : call.method = "replay"
  · exact .inr (.inr (.inr (.inl ⟨replay, by rw [replay]; rfl⟩)))
  · refine .inr (.inr (.inr (.inr ⟨by simp [put, get, count, replay], ?_⟩)))
    simp [methods, Table.find?, Ne.symm put, Ne.symm get, Ne.symm count, Ne.symm replay]

theorem find?_known (a : Accumulator) {method : Method Accumulator}
    (known : Table.find? methods call.method = some method) :
    Table.find? (component a).methods call.method = some (method.lift accumulators) := by
  rw [component, Component.find?_lift, known]
  rfl

theorem find?_unknown (a : Accumulator) (unknown : Table.find? methods call.method = none) :
    Table.find? (component a).methods call.method = none := by
  rw [component, Component.find?_lift, unknown]
  rfl

theorem puts?_eq_some_iff :
    puts? call = some s ↔ call.method = "put" ∧ call.args.get? "s" = some (.string s) := by
  unfold puts?
  split
  · next method =>
    cases call.args.get? "s" with
    | none => simp [method]
    | some v => cases v <;> simp [method, Value.asString?]
  · next method => simp [method]

theorem puts?_of_other (method : call.method ≠ "put") : puts? call = none := if_neg method

/-- A call appends what it puts, and changes nothing else. -/
theorem serve_component (a : Accumulator) (call : MethodCall) :
    (component a).serve call =
      component { a with chunks := a.chunks ++ (puts? call).toList } := by
  have still (method : call.method ≠ "put") {next : Accumulator} (same : next = a) :
      component next = component { a with chunks := a.chunks ++ (puts? call).toList } := by
    rw [puts?_of_other method, same]
    simp
  rcases method_cases call with
    ⟨method, known⟩ | ⟨method, known⟩ | ⟨method, known⟩ | ⟨method, known⟩ | ⟨method, known⟩
  · have served : (component a).serve call = component (a.put call.args).2 :=
      Component.serve_of_known (find?_known a known)
    rw [served]
    cases puts : puts? call with
    | some s =>
      rw [put_of_string (puts?_eq_some_iff.1 puts).2]
      rfl
    | none =>
      obtain ⟨f, failed⟩ := put_of_bad (a := a) fun s string => by
        rw [puts?_eq_some_iff.2 ⟨method, string⟩] at puts
        cases puts
      rw [failed]
      simp
  · exact (Component.serve_of_known (find?_known a known)).trans (still (by simp [method]) rfl)
  · exact (Component.serve_of_known (find?_known a known)).trans (still (by simp [method]) rfl)
  · have served : (component a).serve call = component (a.replay call.args).2 :=
      Component.serve_of_known (find?_known a known)
    rw [served]
    exact still (by simp [method]) (by rw [replay_eq])
  · rw [Component.serve_of_unknown (find?_unknown a known)]
    exact still (by rintro put; simp [put] at method) rfl

theorem serveAll_component (a : Accumulator) (calls : List MethodCall) :
    (component a).serveAll calls = component { a with chunks := a.chunks ++ logOf calls } := by
  induction calls generalizing a with
  | nil => simp [logOf]
  | cons call rest ih =>
    have first : (component a).serveAll (call :: rest) = ((component a).serve call).serveAll rest :=
      rfl
    rw [first, serve_component, ih]
    cases puts : puts? call <;> simp [logOf, puts]

/-- What an accumulator answers is what its log makes it answer. -/
theorem answers_of (answers : (component a).Answers name call rs) :
    Answers name a.base a.chunks call rs := by
  rcases method_cases call with
    ⟨method, known⟩ | ⟨method, known⟩ | ⟨method, known⟩ | ⟨method, known⟩ | ⟨method, known⟩
  · have replied : rs = [call.ticket.finish (a.put call.args).1] :=
      answers.of_instant (find?_known a known)
    by_cases given : ∃ s, call.args.get? "s" = some (.string s)
    · obtain ⟨s, string⟩ := given
      rw [replied, put_of_string string]
      exact .put method string
    · have bad := not_exists.1 given
      obtain ⟨f, failed⟩ := put_of_bad (a := a) bad
      rw [replied, failed]
      exact .badPut method bad f
  · have replied : rs = [call.ticket.finish (a.get call.args).1] :=
      answers.of_instant (find?_known a known)
    rw [replied, get, text_eq]
    exact .get method
  · have replied : rs = [call.ticket.finish (a.count call.args).1] :=
      answers.of_instant (find?_known a known)
    rw [replied]
    exact .count method
  · by_cases acceptable : Replayable call.args
    · obtain ⟨ms, opened⟩ := replay_of_replayable a acceptable
      rcases answers.of_streaming (find?_known a known) with ⟨f, failed, -⟩ | ⟨s, streams, emits⟩
      · change (a.replay call.args).1 = _ at failed
        rw [opened] at failed
        cases failed
      · change (a.replay call.args).1 = _ at streams
        rw [opened] at streams
        cases streams
        rw [Stream.emits_paced emits]
        exact .replay method acceptable
    · obtain ⟨f, refused⟩ := replay_of_bad a acceptable
      rcases answers.of_streaming (find?_known a known) with ⟨f, -, rfl⟩ | ⟨s, streams, -⟩
      · exact .badReplay method acceptable f
      · change (a.replay call.args).1 = _ at streams
        rw [refused] at streams
        cases streams
  · rw [answers.of_unknown (find?_unknown a known)]
    exact .unknown method

/-- Only a replay opens a stream: that of the log. -/
theorem opens_of (opens : (component a).Opens call stream) :
    call.method = "replay" ∧ Replayable call.args ∧ ∃ ms, stream =
      Stream.paced ms (a.chunks.map fun s => .map [("s", .string s)]) := by
  obtain ⟨run, named, opened⟩ := opens
  rcases method_cases call with
    ⟨method, known⟩ | ⟨method, known⟩ | ⟨method, known⟩ | ⟨method, known⟩ | ⟨method, known⟩
  · cases named.symm.trans (find?_known a known)
  · cases named.symm.trans (find?_known a known)
  · cases named.symm.trans (find?_known a known)
  · cases named.symm.trans (find?_known a known)
    change (a.replay call.args).1 = _ at opened
    by_cases acceptable : Replayable call.args
    · obtain ⟨ms, replayed⟩ := replay_of_replayable a acceptable
      rw [replayed] at opened
      cases opened
      exact ⟨method, acceptable, ms, rfl⟩
    · obtain ⟨f, refused⟩ := replay_of_bad a acceptable
      rw [refused] at opened
      cases opened
  · cases named.symm.trans (find?_unknown a known)

theorem exists_answers (name base : String) (log : List String) (call : MethodCall) :
    ∃ all, Answers name base log call all := by
  rcases method_cases call with
    ⟨method, known⟩ | ⟨method, known⟩ | ⟨method, known⟩ | ⟨method, known⟩ | ⟨method, known⟩
  · by_cases given : ∃ s, call.args.get? "s" = some (.string s)
    · obtain ⟨s, string⟩ := given
      exact ⟨_, .put method string⟩
    · exact ⟨_, .badPut method (not_exists.1 given) .cancelled⟩
  · exact ⟨_, .get method⟩
  · exact ⟨_, .count method⟩
  · by_cases acceptable : Replayable call.args
    · exact ⟨_, .replay method acceptable⟩
    · exact ⟨_, .badReplay method acceptable .cancelled⟩
  · exact ⟨_, .unknown method⟩

/-- What was replied so far is the beginning of all that the log makes an accumulator answer. -/
theorem answering_of (answering : (component a).Answering name call rs) :
    ∃ all, Answers name a.base a.chunks call all ∧ rs <+: all := by
  cases answering with
  | silent =>
    obtain ⟨all, answers⟩ := exists_answers name a.base a.chunks call
    exact ⟨all, answers, List.nil_prefix⟩
  | streaming opens emits =>
    obtain ⟨method, acceptable, ms, rfl⟩ := opens_of opens
    exact ⟨_, .replay method acceptable, Stream.prefix_of_emits emits⟩
  | all answers => exact ⟨rs, answers_of answers, List.prefix_refl rs⟩

open Machine

/-- A replay is no longer than the line before it. -/
theorem brief (base : String) {bound : Nat} {calls : List MethodCall}
    (few : calls.length ≤ bound + 1) : Brief (component ⟨base, []⟩) bound calls := by
  rintro front call back rfl s opens
  rw [serveAll_component] at opens
  obtain ⟨-, -, ms, rfl⟩ := opens_of opens
  have short : (logOf front).length ≤ front.length := List.length_filterMap_le _ _
  refine ⟨_, ?_, Stream.paced_endsAt _ _, fun n _ => by simp [Stream.paced_element?]⟩
  simp only [List.nil_append, List.length_map, List.length_append, List.length_cons] at few ⊢
  omega

/-! ## Main result -/

/-- How instance number `id` of the machine `m`, which is `i` now, keeps a log behind a base, when
`es` is what happened since the start. -/
structure SharedLog (es : List (Occurrence State)) (m : Machine State) (id : Nat)
    (i : Instance State) (base : String) : Prop where
  /-- The calls on it are the requests of their numbers, whoever asked, in the order in which these
  were taken. -/
  line : (callsOn id es).Pairwise (fun a b => a.ticket.serial < b.ticket.serial) ∧
    ∀ call ∈ callsOn id es, ∃ origin packet,
      (requestsIn es)[call.ticket.serial]? =
        some (.execute origin (.method i.name call.method) packet) ∧
      call = ⟨.issue call.ticket.serial origin (.method i.name call.method) packet, call.method,
        packet.args⟩
  /-- A request for its name that is taken next is the next of these calls. -/
  joins : ∀ origin method packet k,
    m.move? (.request (.execute origin (.method i.name method) packet)) = some k →
    callsOn id (es ++
        m.occurrences (.request (.execute origin (.method i.name method) packet)) k) =
      callsOn id es ++
        [⟨.issue m.serial origin (.method i.name method) packet, method, packet.args⟩]
  /-- The log is what the calls put that were served, and these are the first of the line; the
  others have no last reply yet. -/
  log : ∃ served others, callsOn id es = served ++ others ∧
    i.component.state = .accumulator ⟨base, logOf served⟩ ∧
    (∀ call ∈ served, ¬ m.Pending call.ticket.serial) ∧
    ∀ call ∈ others, m.Pending call.ticket.serial
  /-- A call is answered by what was put before it in the line. As long as it is pending, what was
  replied is the beginning of that answer, and then it is all of it. -/
  answers : ∀ before call after, callsOn id es = before ++ call :: after →
    (∃ all, Answers i.name base (logOf before) call all ∧
      m.repliesTo call.ticket.serial <+: all) ∧
    (¬ m.Pending call.ticket.serial →
      Answers i.name base (logOf before) call (m.repliesTo call.ticket.serial))
  /-- As long as a call is pending, the instance can move at any time that is late enough, and the
  call is answered when the instance has moved often enough, unless somebody hinders it. -/
  served : ∀ before call after, callsOn id es = before ++ call :: after →
    (m.Pending call.ticket.serial →
      ∃ time, ∀ now, time ≤ now → ∃ k, m.move? (.instance id now) = some k) ∧
    ∃ enough, ∀ moves n j, m.after? moves = some n → Table.find? n.instances id = some j →
      Unhindered (es ++ m.happened moves) n id j → enough ≤ turns id moves →
        Answers i.name base (logOf before) call (n.repliesTo call.ticket.serial)

/-- In every run, an accumulator that nobody hinders is a log that its callers share. -/
theorem shared_log {registry : Registry State} {es : List (Occurrence State)} {m : Machine State}
    {id : Nat} {i : Instance State} {args : Value} {c : Component State}
    (made : Factory.lift accumulators factory args = .ok c) (run : Run (init registry) es m)
    (found : Table.find? m.instances id = some i) (defined : .defined id i.name c ∈ es)
    (free : Unhindered es m id i) : SharedLog es m id i (baseOf args) := by
  obtain rfl := eq_component made
  obtain ⟨done, current, h⟩ := run.sequential found defined free
  have behind (calls : List MethodCall) : (component ⟨baseOf args, []⟩).serveAll calls =
      component ⟨baseOf args, logOf calls⟩ := serveAll_component _ _
  constructor
  case line => exact ⟨(run.line_sorted id).1, fun call member => run.line_taken found member⟩
  case joins =>
    intro origin method packet k step
    exact run.joins found free.isOpen origin method packet k
  case log =>
    have state : i.component = component ⟨baseOf args, logOf done⟩ := by
      cases h.stands with
      | between phase made | begun phase made => rw [made, behind]
      | driving phase made opens =>
        -- only a replay streams, and it puts nothing
        rw [behind] at made opens
        obtain ⟨replay, -, -⟩ := opens_of opens
        rw [made, serve_component, puts?_of_other (by simp [replay])]
        simp
    refine ⟨done, current ++ i.waiting, ?_, by rw [state]; rfl, fun call member => ?_,
      fun call member => h.pending run found member⟩
    · rw [h.line, List.append_assoc]
    · obtain ⟨before, after, split⟩ := List.append_of_mem member
      exact h.settled run split
  case answers =>
    intro before call after split
    obtain ⟨answering, answered⟩ := h.answering run found split
    rw [behind] at answering answered
    exact ⟨answering_of answering, fun settled => answers_of (answered settled)⟩
  case served =>
    intro before call after split
    -- no replay up to this call has more elements than there are calls before it
    have short : Brief (component ⟨baseOf args, []⟩) before.length (before ++ [call]) :=
      brief _ (by simp)
    refine ⟨fun pending => h.can_move run found free split pending short,
      i.effort before.length call.ticket.serial, fun moves n j after there calm enough => ?_⟩
    have answers := run.answered_in_time found defined split short after there calm enough
    rw [behind] at answers
    exact answers_of answers

/-- A registry with the accumulator as its one component type. -/
def logRegistry : Registry State :=
  ⟨[], [("accumulator", ⟨"debug", Factory.lift accumulators factory⟩)]⟩

/-- The define of an accumulator. -/
def logStart : Move :=
  .request (.execute 1 (.componentType "accumulator")
    (.defineComponent "a" "accumulator" "x" (.map [("base", .string ">")])))

/-- Calls of two clients: a put without a string, one that comes while a replay streams, and a
method that there is not. -/
def logMoves : List Move :=
  [.request (.execute 1 (.method "x" "put")
      (.callMethod "b" "x" "put" (.map [("s", .string "p")]))),
    .request (.execute 2 (.method "x" "put") (.callMethod "c" "x" "put" (.map [("s", .int 1)]))),
    .request (.execute 2 (.method "x" "put")
      (.callMethod "d" "x" "put" (.map [("s", .string "q")]))),
    .request (.execute 1 (.method "x" "replay") (.callMethod "e" "x" "replay" .null))]
  ++ List.replicate 17 (.instance 0 0)
  ++ [.request (.execute 2 (.method "x" "put")
      (.callMethod "f" "x" "put" (.map [("s", .string "r")]))),
    .request (.execute 1 (.method "x" "count") (.callMethod "g" "x" "count" .null)),
    .request (.execute 2 (.method "x" "none") (.callMethod "h" "x" "none" .null))]
  ++ List.replicate 16 (.instance 0 0)

theorem shared_log_concurrent :
    ∃ (es : List (Occurrence State)) (m : Machine State) (i : Instance State),
      Run (init logRegistry) es m ∧ Table.find? m.instances 0 = some i ∧
      m.replies.map Reply.serial = [0, 1, 2, 3, 4, 4, 5, 6, 7] ∧
      m.replies.map (fun r => r.packet.done) =
        [true, true, false, true, false, true, true, true, false] ∧
      Unhindered es m 0 i ∧ SharedLog es m 0 i ">" := by
  obtain ⟨k, m, i, start, rest, found, name, serials, outputs, running, kept, there⟩ :
      ∃ (k m : Machine State) (i : Instance State), (init logRegistry).move? logStart = some k ∧
        k.after? logMoves = some m ∧ Table.find? m.instances 0 = some i ∧ i.name = "x" ∧
        m.replies.map Reply.serial = [0, 1, 2, 3, 4, 4, 5, 6, 7] ∧
        m.replies.map (fun r => r.packet.done) =
          [true, true, false, true, false, true, true, true, false] ∧
        m.stopping = false ∧ m.tripped = [] ∧ i.deleted = false :=
    ⟨_, _, _, rfl, rfl, rfl, rfl, rfl, rfl, rfl, rfl, rfl⟩
  have run := (Run.refl.move logStart start).trans (run_happened rest)
  have made : Factory.lift accumulators factory (.map [("base", .string ">")]) =
      .ok (component ⟨">", []⟩) := rfl
  have defined : .defined 0 "x" (component ⟨">", []⟩) ∈ (init logRegistry).occurrences logStart k :=
    (mem_occurrences (move_change start) rfl).2 (List.mem_singleton_self _)
  have free : Unhindered ([] ++ (init logRegistry).occurrences logStart k ++ k.happened logMoves)
      m 0 i :=
    ⟨by simp [isClosed, running, there], fun call _ => by simp [isCancelled, running, kept]⟩
  rw [← name] at defined
  refine ⟨_, m, i, run, found, serials, outputs, free, ?_⟩
  exact shared_log made run found (List.mem_append_left _ defined) free

end Accumulator

end Modules

end Patchbay
