import Patchbay.Proofs.Machine.MissingTargets

/-!
# Names of components

The names in use are at every moment what the defines and deletes that succeeded made of no names, in
the order in which they were taken. A request that fails leaves no trace in them, so a name is free
unless such a define took it and no such delete freed it again.
-/

namespace Patchbay

variable {σ : Type}

/-- The names in use behind a request that succeeds. -/
def Request.names (names : List String) : Request → List String
  | .execute _ (.componentType _) packet =>
    match packet.body.get? "name" with
    | some (.string name) => names ++ [name]
    | _ => names
  | .execute _ (.component name) _ => names.filter (· ≠ name)
  | _ => names

namespace Machine

variable {registry : Registry σ} {m k n : Machine σ} {l : Move}
  {es past later : List (Occurrence σ)} {id : Nat} {i : Instance σ} {number : Nat}
  {origin : ClientId} {target : Target} {packet : Packet} {name : String}

/-- No failure was reported for the request. -/
def succeeded (m : Machine σ) (number : Nat) : Bool :=
  (m.repliesTo number).all fun r => r.packet.failure?.isNone

/-- What the successful ones of some requests make of no names. -/
def namesAfter (m : Machine σ) (requests : List Request) : List String :=
  requests.zipIdx.foldl
    (fun names entry => if m.succeeded entry.2 then entry.1.names names else names) []

theorem namesAfter_append_one (m : Machine σ) (requests : List Request) (r : Request) :
    m.namesAfter (requests ++ [r]) =
      if m.succeeded requests.length then r.names (m.namesAfter requests)
      else m.namesAfter requests := by
  simp [namesAfter, List.zipIdx_append, List.foldl_append]

/-! ## Success -/

/-- The request that is taken next gets the next number. -/
theorem Run.asked_next (run : Run (init registry) es m) {r : Request}
    (step : m.move? (.request r) = some k) :
    (requestsIn (es ++ m.occurrences (.request r) k))[m.serial]? = some r := by
  have now := requestsIn_occurrences (move_change step)
  unfold requestsIn at now ⊢
  rw [List.filterMap_append, now, ← run.orderly.number]
  exact List.getElem?_concat_length

/-- The answer that a request gets at once tells for good whether it succeeded. -/
theorem Run.succeeded_of_answer (run : Run (init registry) es m)
    (step : m.move? (.request (.execute origin target packet)) = some k) {r : Reply}
    (replies : k.replies = m.replies ++ [r]) (serial : r.serial = m.serial)
    (last : r.packet.isTerminal = true) (since : Run k later n) :
    n.succeeded m.serial = r.packet.failure?.isNone := by
  have answered : k.repliesTo m.serial = [r] :=
    repliesTo_of_first run.orderly.next_silent replies serial
  have sent : r ∈ k.repliesTo m.serial := answered ▸ List.mem_singleton_self r
  have still := (run.move _ step).repliesTo_of_last (run.asked_next step) sent last since
  rw [succeeded, still, answered, List.all_cons, List.all_nil, Bool.and_true]

theorem Run.succeeded_of_refuse (run : Run (init registry) es m) {f : Fault}
    (step : m.move? (.request (.execute origin target packet)) = some k)
    (refused : k = m.refuse (.issue m.serial origin target packet) f) (since : Run k later n) :
    n.succeeded m.serial = false := by
  have replies : k.replies =
      m.replies ++ [(Ticket.issue m.serial origin target packet).fail f] := refused ▸ rfl
  rw [run.succeeded_of_answer step replies rfl (Ticket.Last.fail f).spec.2.2.1 since,
    Ticket.fail_failure?]
  rfl

/-- A delete of a name in use never fails. -/
theorem Run.succeeded_of_delete (run : Run (init registry) es m)
    (named : Table.find? m.live name = some id)
    (step : m.move? (.request (.execute origin (.component name) packet)) = some k)
    (since : Run k later n) : n.succeeded m.serial = true := by
  obtain ⟨i, found, deleted, -, waits, silent⟩ := move_delete run named step
  have whole := run.move _ step
  obtain ⟨j, here, -, -, -⟩ := Run.of_deleted whole found deleted since
  have awaits := Run.awaits (t := .issue m.serial origin (.component name) packet) whole found deleted
    (run.asked_next step) waits silent since here
  rcases awaits with ⟨-, none⟩ | ⟨done, -⟩
  · have none : n.repliesTo m.serial = [] := none
    rw [succeeded, none]
    rfl
  · have done : n.repliesTo m.serial =
        [(Ticket.issue m.serial origin (.component name) packet).done .null] := done
    rw [succeeded, done, List.all_cons, Ticket.done_failure?]
    rfl

/-! ## The names in use -/

theorem handle_delete_missing (missing : name ∉ Table.keys m.live) :
    m.handle (.execute origin (.component name) packet) =
      m.refuse (.issue m.serial origin (.component name) packet) (.notFound "component" name) := by
  simp only [handle, deleteComponent, Table.find?_eq_none_iff.2 missing]
  rfl

theorem handle_delete_named (named : Table.find? m.live name = some id) :
    m.handle (.execute origin (.component name) packet) =
      { m with
        serial := m.serial + 1
        live := Table.erase m.live name
        instances := Table.modify m.instances id fun i => { i with deleted := true }
        waiters := m.waiters ++
          [(m.serial, ⟨.issue m.serial origin (.component name) packet, id⟩)] } := by
  simp only [handle, deleteComponent, named]
  rfl

theorem Run.names_of_define (run : Run (init registry) es m)
    (step : m.move? (.request (.execute origin (.componentType type) packet)) = some k)
    (since : Run k later n) :
    Table.keys k.live =
      if n.succeeded m.serial then
        (Request.execute origin (.componentType type) packet).names (Table.keys m.live)
      else Table.keys m.live := by
  obtain ⟨-, made⟩ := move_request_iff.1 step
  rcases makes_or_refusal m.registry (Table.keys m.live) type packet with
    ⟨name, component, makes, free⟩ | ⟨code, f, refusal⟩
  · rw [handle_define_of_makes makes free] at made
    have replies : k.replies = m.replies ++ [(Ticket.issue m.serial origin (.componentType type)
        packet).done (.map [("component", .string name), ("type", .string type)])] :=
      made ▸ rfl
    have success := run.succeeded_of_answer step replies rfl (Ticket.Last.done _).spec.2.2.1 since
    rw [Ticket.done_failure?] at success
    rw [success, ← made, Request.names, makes.given]
    simp [afterDefine, Table.keys]
  · rw [handle_define_of_refusal refusal] at made
    rw [run.succeeded_of_refuse step made.symm since, ← made]
    rfl

theorem Run.names_of_delete (run : Run (init registry) es m)
    (step : m.move? (.request (.execute origin (.component name) packet)) = some k)
    (since : Run k later n) :
    Table.keys k.live =
      if n.succeeded m.serial then
        (Request.execute origin (.component name) packet).names (Table.keys m.live)
      else Table.keys m.live := by
  obtain ⟨-, made⟩ := move_request_iff.1 step
  by_cases there : name ∈ Table.keys m.live
  · obtain ⟨id, named⟩ := Table.mem_keys_iff.1 there
    rw [run.succeeded_of_delete named step since, ← made, handle_delete_named named]
    exact Table.keys_erase m.live name
  · rw [handle_delete_missing there] at made
    rw [run.succeeded_of_refuse step made.symm since, ← made]
    rfl

/-- Taking a request does to the names what it says, if it succeeds, and else nothing. -/
theorem Run.names_of_request (run : Run (init registry) es m) {r : Request}
    (step : m.move? (.request r) = some k) (since : Run k later n) :
    Table.keys k.live =
      if n.succeeded m.serial then r.names (Table.keys m.live) else Table.keys m.live := by
  obtain ⟨-, made⟩ := move_request_iff.1 step
  have still (same : k.live = m.live) (idle : r.names (Table.keys m.live) = Table.keys m.live) :
      Table.keys k.live =
        if n.succeeded m.serial then r.names (Table.keys m.live) else Table.keys m.live := by
    rw [idle, same, ite_self]
  cases r with
  | cancel origin tx =>
    refine still ?_ rfl
    rw [← made]
    simp only [handle, cancel]
    split <;> rfl
  | execute origin target packet =>
    cases target with
    | function name =>
      refine still ?_ rfl
      rw [← made]
      simp only [handle, callFunction]
      split <;> rfl
    | method name method =>
      refine still ?_ rfl
      rw [← made]
      simp only [handle, callMethod]
      split
      · rfl
      · split <;> rfl
    | componentType type => exact run.names_of_define step since
    | component name => exact run.names_of_delete step since

/-- No other move touches the names, but that a machine that halts forgets them all. -/
theorem names_of_other (step : m.move? l = some k) (other : l.asked = []) :
    k.live = m.live ∧ k.halted = m.halted ∨ k.live = [] ∧ k.halted = true := by
  cases l with
  | trip key =>
    obtain ⟨-, rfl⟩ := trip_of_move step
    exact .inl ⟨rfl, rfl⟩
  | request r => cases other
  | stop =>
    cases step
    exact .inl ⟨rfl, rfl⟩
  | halt =>
    obtain ⟨-, rfl⟩ := halt_of_move step
    exact .inr ⟨rfl, rfl⟩
  | notice =>
    obtain ⟨_, _, -, rfl⟩ := notice_of_move step
    exact .inl ⟨rfl, rfl⟩
  | task id now =>
    cases stepTask_move step <;> exact .inl ⟨rfl, rfl⟩
  | «instance» id now =>
    cases stepInstance_move step
    exact .inl ⟨rfl, rfl⟩
  | waiter id =>
    cases stepWaiter_move step
    exact .inl ⟨rfl, rfl⟩

theorem handle_halted (m : Machine σ) (r : Request) : (m.handle r).halted = m.halted := by
  have moved := m.handle_moved r
  generalize m.handle r = k at moved ⊢
  generalize asked : [r] = requests at moved
  cases moved with
  | execute move => cases move <;> rfl
  | cancel => rfl
  | _ => cases asked

/-- At every moment of a run the names in use are the fold of the requests taken until then, by what is
known of their success at any later moment. -/
theorem Run.names (run : Run (init registry) es m) (since : Run m later n) :
    Table.keys m.live = if m.halted then [] else n.namesAfter (requestsIn es) := by
  induction run generalizing later with
  | refl => rfl
  | @move es m k l before step ih =>
    have earlier := ih ((Run.refl.move l step).trans since)
    have asked : requestsIn (es ++ m.occurrences l k) = requestsIn es ++ l.asked := by
      have now := requestsIn_occurrences (move_change step)
      unfold requestsIn at now ⊢
      rw [List.filterMap_append, now]
    rw [asked]
    by_cases other : l.asked = []
    · rw [other, List.append_nil]
      rcases names_of_other step other with ⟨live, halted⟩ | ⟨live, halted⟩
      · rw [live, halted]
        exact earlier
      · rw [live, halted]
        rfl
    · cases l with
      | request r =>
        obtain ⟨takes, made⟩ := move_request_iff.1 step
        have running := running_of_takes takes
        have goes : k.halted = false := made ▸ (m.handle_halted r).trans running
        rw [running] at earlier
        rw [before.names_of_request step since, goes, Move.asked, namesAfter_append_one,
          before.orderly.number, earlier]
        rfl
      | _ => exact absurd rfl other
  | exchange other before ih => exact ih ((Run.refl.exchange other).trans since)

theorem Run.names_nodup (run : Run (init registry) es m) : (Table.keys m.live).Nodup := by
  induction run with
  | refl => exact List.nodup_nil
  | @move es m k l before step ih =>
    by_cases other : l.asked = []
    · rcases names_of_other step other with ⟨live, -⟩ | ⟨live, -⟩
      · rw [live]
        exact ih
      · rw [live]
        exact List.nodup_nil
    · cases l with
      | request r =>
        obtain ⟨-, made⟩ := move_request_iff.1 step
        have moved := m.handle_moved r
        rw [made] at moved
        generalize asked : [r] = requests at moved
        cases moved with
        | execute move =>
          cases move with
          | refused | started | queued => exact ih
          | defined => exact Table.nodup_keys_put ih _ _
          | deleting => exact ih.sublist (Table.keys_erase_sublist _ _)
        | cancel => exact ih
        | _ => cases asked
      | _ => exact absurd rfl other
  | exchange other before ih => exact ih

/-! ## Main result -/

/-- What taking a delete with the ticket `t` in the machine `m` leads to. -/
structure DeleteTaken (m : Machine σ) (t : Ticket) (name : String) (k : Machine σ) : Prop where
  /-- A delete of a name that is not in use fails, and leaves nothing but its answer behind. -/
  missing : name ∉ Table.keys m.live → k = m.refuse t (.notFound "component" name)
  /-- Any other succeeds. Its instance is marked, and the delete waits for its end. -/
  found : ∀ id, Table.find? m.live name = some id →
    k = { m with
      serial := m.serial + 1
      live := Table.erase m.live name
      instances := Table.modify m.instances id fun i => { i with deleted := true }
      waiters := m.waiters ++ [(m.serial, ⟨t, id⟩)] }
  succeeds_iff : ∀ later n, Run k later n →
    (n.succeeded m.serial = true ↔ name ∈ Table.keys m.live)
  /-- Whether it succeeds or not, the name is free behind it, at once. -/
  free : name ∉ Table.keys k.live ∧ k.Definable name

/-- How the names in use of a machine `m` come from what happened since the start, `es`, and what
requests for defines, deletes and calls do to them. -/
structure ComponentNames (es : List (Occurrence σ)) (m : Machine σ) : Prop where
  /-- The names in use are the fold of the successful defines and deletes in the order in which they
  were taken; none is in use any more when the machine has halted. -/
  fold : Table.keys m.live = if m.halted then [] else m.namesAfter (requestsIn es)
  /-- Each of them is the name of one instance, which is not deleted. -/
  unique : (Table.keys m.live).Nodup
  instances : ∀ name ∈ Table.keys m.live, ∃ id i, Table.find? m.live name = some id ∧
    Table.find? m.instances id = some i ∧ i.name = name ∧ i.deleted = false
  /-- Nothing changes the registry. -/
  registry : ∀ l k, m.move? l = some k → k.registry = m.registry
  define : ∀ origin type packet k,
    m.move? (.request (.execute origin (.componentType type) packet)) = some k →
    DefineTaken m (.issue m.serial origin (.componentType type) packet) type packet k
  delete : ∀ origin name packet k,
    m.move? (.request (.execute origin (.component name) packet)) = some k →
    DeleteTaken m (.issue m.serial origin (.component name) packet) name k
  /-- A call of a function or component that there is not is answered, and that is all. -/
  unknownFunction : ∀ origin name packet k,
    m.move? (.request (.execute origin (.function name) packet)) = some k →
    m.registry.function? name = none →
    k = m.refuse (.issue m.serial origin (.function name) packet) (.notFound "function" name)
  unknownComponent : ∀ origin name method packet k,
    m.move? (.request (.execute origin (.method name method) packet)) = some k →
    name ∉ Table.keys m.live →
    k = m.refuse (.issue m.serial origin (.method name method) packet) (.notFound "component" name)
  /-- So is a call of a component that takes no calls any more, because the machine stops; the call in
  flight under its key is forgotten. -/
  closedComponent : ∀ origin name method packet k id i,
    m.move? (.request (.execute origin (.method name method) packet)) = some k →
    Table.find? m.live name = some id → Table.find? m.instances id = some i →
    i.phase.accepts = false → m.stopping = true ∧
      k = { m.refuse (.issue m.serial origin (.method name method) packet)
          (.notFound "component" name) with
        inflight := Table.erase m.inflight (origin, packet.tx) }
  /-- A call of a method that its component lacks affects nothing, when it is taken and later. -/
  unknownMethod : ∀ origin name method packet k id i,
    m.move? (.request (.execute origin (.method name method) packet)) = some k →
    Table.find? m.live name = some id → Table.find? m.instances id = some i →
    i.phase.accepts = true → Table.find? i.component.methods method = none →
    UnknownMethodTaken m (.issue m.serial origin (.method name method) packet) name method k

theorem Run.delete_taken (run : Run (init registry) es m)
    (step : m.move? (.request (.execute origin (.component name) packet)) = some k) :
    DeleteTaken m (.issue m.serial origin (.component name) packet) name k := by
  obtain ⟨-, made⟩ := move_request_iff.1 step
  have missing (absent : name ∉ Table.keys m.live) := made.symm.trans (handle_delete_missing absent)
  have found (id : Nat) (named : Table.find? m.live name = some id) :=
    made.symm.trans (handle_delete_named named)
  constructor
  case missing => exact missing
  case found => exact found
  case succeeds_iff =>
    intro later n since
    by_cases there : name ∈ Table.keys m.live
    · obtain ⟨id, named⟩ := Table.mem_keys_iff.1 there
      simp [run.succeeded_of_delete named step since, there]
    · simp [run.succeeded_of_refuse step (missing there) since, there]
  case free =>
    have free : name ∉ Table.keys k.live := by
      by_cases there : name ∈ Table.keys m.live
      · obtain ⟨id, named⟩ := Table.mem_keys_iff.1 there
        rw [found id named, Table.keys_erase]
        simp
      · rw [missing there]
        exact there
    exact ⟨free, definable_of_free (idle_of_execute step) free⟩

/-- In every run the names in use follow from the requests that succeed, and those that fail leave no
trace. -/
theorem component_names (run : Run (init registry) es m) : ComponentNames es m := by
  constructor
  case fold => exact run.names .refl
  case unique => exact run.names_nodup
  case instances =>
    intro name there
    obtain ⟨id, named⟩ := Table.mem_keys_iff.1 there
    obtain ⟨i, found, title, kept⟩ := run.named named
    exact ⟨id, i, named, found, title, kept⟩
  case registry => exact fun l k step => registry_of_move step
  case define => exact fun origin type packet k step => define_taken step
  case delete => exact fun origin name packet k step => run.delete_taken step
  case unknownFunction =>
    intro origin name packet k step missing
    exact (move_request_iff.1 step).2.symm.trans (handle_function_missing missing)
  case unknownComponent =>
    intro origin name method packet k step missing
    exact (move_request_iff.1 step).2.symm.trans (handle_method_missing missing)
  case closedComponent =>
    intro origin name method packet k id i step named found closed
    refine ⟨?_, (move_request_iff.1 step).2.symm.trans (handle_method_closed named found closed)⟩
    obtain ⟨x, there, -, kept⟩ := run.named named
    cases there.symm.trans found
    by_contra goes
    have isOpen : m.isClosed i = false := by simpa [isClosed, kept] using goes
    rw [run.accepts found isOpen] at closed
    cases closed
  case unknownMethod =>
    intro origin name method packet k id i step named found accepts unknown
    exact unknown_method_taken run named found accepts unknown step

/-- A name that is taken, given to an unknown type, freed and taken again. -/
def nameMoves : List Move :=
  [.request (.execute 1 (.componentType "count") (.defineComponent "a" "count" "c" .null)),
    .request (.execute 1 (.componentType "count") (.defineComponent "b" "count" "c" .null)),
    .request (.execute 2 (.componentType "none") (.defineComponent "d" "none" "e" .null)),
    .request (.execute 2 (.component "c") (.deleteComponent "f" "c")),
    .request (.execute 2 (.componentType "count") (.defineComponent "g" "count" "c" .null))]

theorem component_names_count :
    ∃ (es : List (Occurrence Nat)) (m : Machine Nat), Run (init countRegistry) es m ∧
      Table.keys m.live = ["c"] ∧
      (List.range m.serial).map m.succeeded = [true, false, false, true, true] ∧
      ComponentNames es m := by
  obtain ⟨m, made, names, successes⟩ : ∃ m : Machine Nat,
      (init countRegistry).after? nameMoves = some m ∧ Table.keys m.live = ["c"] ∧
      (List.range m.serial).map m.succeeded = [true, false, false, true, true] :=
    ⟨_, rfl, rfl, rfl⟩
  obtain ⟨es, run⟩ := run_of_after? made
  exact ⟨es, m, run, names, successes, component_names run⟩

end Machine

end Patchbay
