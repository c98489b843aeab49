import Patchbay.Proofs.Machine.Holders

/-!
# Chronicles

A run of a machine together with what happens in it, in order: the requests that it takes, the
components that are defined, the calls that are queued on them, the method bodies and teardown hooks
that run, and the replies that are sent. A chronicle is read off the moves; no move reads it.
-/

namespace Patchbay

variable {σ : Type}

/-- What happens on a machine. Instances go by their numbers; a teardown hook runs on the component as
it is then. -/
inductive Occurrence (σ : Type) where
  | took (r : Request)
  | defined (id : Nat) (name : String) (component : Component σ)
  | queued (id : Nat) (call : MethodCall)
  | ran (id : Nat) (call : MethodCall) (method : Method σ)
  | toreDown (id : Nat) (component : Component σ)
  | sent (r : Reply)

namespace Occurrence

/-- The request that is taken. -/
def request? : Occurrence σ → Option Request
  | took r => some r
  | _ => none

/-- The instance to which something happens. -/
def instance? : Occurrence σ → Option Nat
  | defined id _ _ | queued id _ | ran id _ _ | toreDown id _ => some id
  | _ => none

/-- The body that runs on an instance. -/
def body? (id : Nat) : Occurrence σ → Option (MethodCall × Method σ)
  | ran other call method => if other = id then some (call, method) else none
  | _ => none

/-- What a teardown hook writes to the log. -/
def lines : Occurrence σ → List String
  | toreDown _ component => component.teardown component.state
  | _ => []

end Occurrence

/-- The bodies that ran on an instance, in order. -/
def bodies (id : Nat) (es : List (Occurrence σ)) : List (MethodCall × Method σ) :=
  es.filterMap (Occurrence.body? id)

/-- The teardown hook of an instance ran. -/
def TornDown (es : List (Occurrence σ)) (id : Nat) : Prop := ∃ component, .toreDown id component ∈ es

/-- A component after some bodies ran on it, one after the other. -/
def Component.ranAll (c : Component σ) (runs : List (MethodCall × Method σ)) : Component σ :=
  runs.foldl (fun c run => c.ran run.1 run.2) c

/-- What happens when an instance moves, its replies apart: a call that has begun runs its method,
and a closing instance runs its teardown hook when no call is left. -/
def Instance.effects (i : Instance σ) (id : Nat) : List (Occurrence σ) :=
  match i.phase with
  | .begun call method => [.ran id call method]
  | .closing => if i.mailbox.isEmpty then [.toreDown id i.component] else []
  | _ => []

namespace Machine

/-- What happens to the components when a request is taken. -/
def requestEffects (m : Machine σ) : Request → List (Occurrence σ)
  | .execute _ (.componentType type) packet =>
    match m.prepare type packet.body with
    | .ok (name, component) => [.defined m.serial name component]
    | .error _ => []
  | .execute origin (.method name method) packet =>
    match (Table.find? m.live name).bind fun id =>
        (Table.find? m.instances id).map fun i => (id, i) with
    | some (id, i) =>
      if i.phase.accepts then
        [.queued id ⟨.issue m.serial origin (.method name method) packet, method, packet.args⟩]
      else []
    | none => []
  | _ => []

def effects (m : Machine σ) : Move → List (Occurrence σ)
  | .request r => m.requestEffects r
  | .instance id _ => (Table.find? m.instances id).elim [] (Instance.effects · id)
  | _ => []

/-- What happens in a move from `m` to `k`: a request is taken, a component is touched, and then the
replies are sent. -/
def occurrences (m : Machine σ) (l : Move) (k : Machine σ) : List (Occurrence σ) :=
  l.asked.map .took ++ m.effects l ++ (k.replies.drop m.replies.length).map .sent

/-- A run from `m` and all that happens in it. Between two moves the registry may be exchanged. -/
inductive Run (m : Machine σ) : List (Occurrence σ) → Machine σ → Prop where
  | refl : Run m [] m
  | move {es : List (Occurrence σ)} {n k : Machine σ} (l : Move) (before : Run m es n)
      (step : n.move? l = some k) : Run m (es ++ n.occurrences l k) k
  | exchange {es : List (Occurrence σ)} {n : Machine σ} (registry : Registry σ)
      (before : Run m es n) : Run m es { n with registry := registry }

theorem Run.trans {m n k : Machine σ} {es fs : List (Occurrence σ)} (first : Run m es n)
    (second : Run n fs k) : Run m (es ++ fs) k := by
  induction second with
  | refl => rwa [List.append_nil]
  | move l before step ih =>
    rw [← List.append_assoc]
    exact ih.move l step
  | exchange registry before ih => exact ih.exchange registry

/-! ## What a move does to the components -/

/-- An instance that was just defined. -/
def newborn (name : String) (component : Component σ) : Instance σ :=
  ⟨name, component, [], .idle, false⟩

/-- What a move does to the names and instances, and what happens to them. -/
inductive Change (m : Machine σ) (l : Move) : List (Occurrence σ) → Machine σ → Prop where
  | nothing {k : Machine σ} (others : ∀ id, l.holder? ≠ some (.instance id))
      (instances : k.instances = m.instances)
      (live : ∀ name id, Table.find? k.live name = some id → Table.find? m.live name = some id) :
      Change m l [] k
  | define {k : Machine σ} {name : String} {component : Component σ} (asks : l.holder? = none)
      (instances : k.instances = m.instances ++ [(m.serial, newborn name component)])
      (live : k.live = Table.put m.live name m.serial) :
      Change m l [.defined m.serial name component] k
  | delete {k : Machine σ} {name : String} {id : Nat} (asks : l.holder? = none)
      (named : Table.find? m.live name = some id)
      (instances : k.instances = Table.modify m.instances id fun i => { i with deleted := true })
      (live : k.live = Table.erase m.live name) : Change m l [] k
  | queue {k : Machine σ} {name : String} {id : Nat} {i : Instance σ} {call : MethodCall}
      (asks : l.holder? = none) (named : Table.find? m.live name = some id)
      (found : Table.find? m.instances id = some i) (accepts : i.phase.accepts)
      (serial : call.ticket.serial = m.serial)
      (instances : k.instances = Table.modify m.instances id fun i =>
        { i with mailbox := i.mailbox ++ [call] })
      (live : k.live = m.live) (replies : k.replies = m.replies) :
      Change m l [.queued id call] k
  | work {k : Machine σ} {id : Nat} {i next : Instance σ} {rs : List Reply}
      (moves : l.holder? = some (.instance id)) (found : Table.find? m.instances id = some i)
      (step : InstanceStep (m.isClosed i) i rs next)
      (instances : k.instances = Table.put m.instances id next) (live : k.live = m.live)
      (replies : k.replies = m.replies ++ rs) : Change m l (i.effects id) k

variable {m k n : Machine σ} {l : Move} {es : List (Occurrence σ)}

theorem defineComponent_change (asks : l.holder? = none) (type : String) (origin : ClientId)
    (packet : Packet) :
    Change m l (m.requestEffects (.execute origin (.componentType type) packet))
      (m.handle (.execute origin (.componentType type) packet)) := by
  have others : ∀ id, l.holder? ≠ some (.instance id) := by simp [asks]
  simp only [handle, defineComponent, requestEffects]
  have same : prepare { m with serial := m.serial + 1 } type packet.body =
      m.prepare type packet.body := rfl
  rw [same]
  cases m.prepare type packet.body with
  | error f => exact .nothing others rfl fun _ _ known => known
  | ok made =>
    obtain ⟨name, component⟩ := made
    exact .define asks rfl rfl

theorem deleteComponent_change (asks : l.holder? = none) (name : String) (origin : ClientId)
    (packet : Packet) :
    Change m l (m.requestEffects (.execute origin (.component name) packet))
      (m.handle (.execute origin (.component name) packet)) := by
  have others : ∀ id, l.holder? ≠ some (.instance id) := by simp [asks]
  simp only [handle, deleteComponent, requestEffects]
  split
  · exact .nothing others rfl fun _ _ known => known
  · next named => exact .delete asks named rfl rfl

theorem callMethod_change (asks : l.holder? = none) (name method : String) (origin : ClientId)
    (packet : Packet) :
    Change m l (m.requestEffects (.execute origin (.method name method) packet))
      (m.handle (.execute origin (.method name method) packet)) := by
  have others : ∀ id, l.holder? ≠ some (.instance id) := by simp [asks]
  simp only [handle, callMethod, requestEffects]
  cases known : (Table.find? m.live name).bind fun id =>
      (Table.find? m.instances id).map fun i => (id, i) with
  | none => exact .nothing others rfl fun _ _ known => known
  | some entry =>
    obtain ⟨id, named, there⟩ := Option.bind_eq_some_iff.1 known
    obtain ⟨i, found, rfl⟩ := Option.map_eq_some_iff.1 there
    dsimp only
    split
    · next accepts => exact .queue asks named found accepts rfl rfl rfl rfl
    · exact .nothing others rfl fun _ _ known => known

theorem handle_change (asks : l.holder? = none) (r : Request) :
    Change m l (m.requestEffects r) (m.handle r) := by
  have others : ∀ id, l.holder? ≠ some (.instance id) := by simp [asks]
  cases r with
  | cancel origin tx =>
    have keeps := m.handle_moved (.cancel origin tx)
    generalize m.handle (.cancel origin tx) = k at keeps ⊢
    generalize asked : [Request.cancel origin tx] = requests at keeps
    cases keeps with
    | cancel tripped serial => exact .nothing others rfl fun _ _ known => known
    | execute => cases asked
    | _ => cases asked
  | execute origin target packet =>
    cases target with
    | function name =>
      simp only [handle, callFunction, requestEffects]
      split <;> exact .nothing others rfl fun _ _ known => known
    | componentType type => exact defineComponent_change asks type origin packet
    | component name => exact deleteComponent_change asks name origin packet
    | method name method => exact callMethod_change asks name method origin packet

theorem move_change (step : m.move? l = some k) : Change m l (m.effects l) k := by
  cases l with
  | request r => exact handle_of_request step ▸ handle_change rfl r
  | trip | stop | halt | notice =>
    obtain ⟨n, same | none, rfl⟩ := upkeep_of_move rfl step
    · exact .nothing (by simp [Move.holder?]) rfl fun _ _ known => same ▸ known
    · exact .nothing (by simp [Move.holder?]) rfl fun name id known => by simp [none] at known
  | task id now =>
    cases stepTask_move step <;>
      exact .nothing (by simp [Move.holder?]) rfl fun _ _ known => known
  | «instance» id now =>
    cases stepInstance_move step with
    | @work i next rs notices found worked =>
      simp only [effects, found, Option.elim_some]
      exact .work rfl found worked rfl rfl rfl
  | waiter id =>
    cases stepWaiter_move step
    exact .nothing (by simp [Move.holder?]) rfl fun _ _ known => known

end Machine

end Patchbay
