import Patchbay.Registry
import Patchbay.Machine.Drive

/-!
# The machine

The machine takes requests one at a time. A function call becomes a task; a component becomes an
instance with a mailbox, which takes one call after the other; a delete becomes a waiter for the end
of an instance. Tasks, instances and waiters move on their own, in any order: every move is one
function here, and none of them says which comes next.

A call is found for cancelling by its client and transaction id. It is cancelled when it was tripped
itself, when its component is deleted, or when the machine stops. A cancel trips the call first and is
answered then; the call may move, and be answered, in between.
-/

namespace Patchbay

/-- What the broker asks of the machine. -/
inductive Request where
  | execute (origin : ClientId) (target : Target) (packet : Packet)
  | cancel (origin : ClientId) (tx : String)

/-- By which a call is found for cancelling. -/
abbrev CallKey := ClientId × String

/-- Whether this is a cancel under a key. -/
def Request.cancels (key : CallKey) : Request → Bool
  | cancel origin tx => (origin, tx) == key
  | execute .. => false

/-- Where a function call stands; once begun, it runs whether it is cancelled or not. An answered one
has still to tell the machine that it ended. -/
inductive Work where
  | start (op : Operator) (args : Value)
  | begun (op : Operator) (args : Value)
  | drive (d : Drive)
  | answered

structure Task where
  ticket : Ticket
  work : Work

structure MethodCall where
  ticket : Ticket
  method : String
  args : Value

/-- What an instance is about. A call that is taken is begun, if it is not cancelled, and then runs. A
closing instance refuses the calls still in its mailbox; after the last of them its teardown hook
runs. -/
inductive Phase (σ : Type) where
  | idle
  | taken (call : MethodCall)
  | begun (call : MethodCall) (method : Method σ)
  | driving (ticket : Ticket) (d : Drive)
  | answered (key : CallKey)
  | closing
  | drained (key : CallKey)
  | ended

/-- Whether calls may still be put into the mailbox. -/
def Phase.accepts : Phase σ → Bool
  | closing | drained _ | ended => false
  | _ => true

/-- A component that was defined, until its end and after. -/
structure Instance (σ : Type) where
  name : String
  component : Component σ
  mailbox : List MethodCall
  phase : Phase σ
  deleted : Bool

/-- A delete that will be answered at the end of an instance. -/
structure Waiter where
  ticket : Ticket
  instanceId : Nat

/-- `serial` numbers the requests; an instance has the number of the request that defined it. `begun` is
the number and the key of the last cancel that tripped its call before it was answered. -/
structure Machine (σ : Type) where
  registry : Registry σ
  serial : Nat
  live : Table String Nat
  instances : Table Nat (Instance σ)
  tasks : Table Nat Task
  waiters : Table Nat Waiter
  inflight : Table CallKey Nat
  tripped : List Nat
  begun : Option (Nat × CallKey)
  notices : List CallKey
  stopping : Bool
  halted : Bool
  replies : List Reply
  log : List String

namespace Machine

def init (registry : Registry σ) : Machine σ where
  registry := registry
  serial := 0
  live := []
  instances := []
  tasks := []
  waiters := []
  inflight := []
  tripped := []
  begun := none
  notices := []
  stopping := false
  halted := false
  replies := []
  log := []

def answer (m : Machine σ) (r : Reply) : Machine σ := { m with replies := m.replies ++ [r] }

def answerAll (m : Machine σ) (rs : List Reply) : Machine σ := { m with replies := m.replies ++ rs }

/-- Tells the machine that a call has ended. -/
def notify (m : Machine σ) (key : CallKey) : Machine σ := { m with notices := m.notices ++ [key] }

/-! ## Requests -/

def callFunction (m : Machine σ) (name : String) (args : Value) (t : Ticket) : Machine σ :=
  match m.registry.function? name with
  | none => m.answer (t.fail (.notFound "function" name))
  | some op =>
    { m with
      inflight := Table.put m.inflight t.key t.serial
      tasks := m.tasks ++ [(t.serial, ⟨t, .start op args⟩)] }

/-- The name that a define gives. -/
def nameToDefine (body : Value) : Except Fault String :=
  match body.get? "name" with
  | some (.string name) => .ok name
  | some v => .error (.wrongType "define_component" "name" "string" v.typeName)
  | none => .error (.outOfRange "define_component" "name")

/-- What a define makes: the name is checked first, then that it is free, then the type; the factory
runs last. -/
def prepare (m : Machine σ) (type : String) (body : Value) :
    Except Fault (String × Component σ) := do
  let name ← nameToDefine body
  if Table.has m.live name then .error (.alreadyExists name)
  else match m.registry.factory? type with
    | none => .error (.unknownComponentType type)
    | some factory => do
      let component ← factory ((body.get? "args").getD .null)
      return (name, component)

def defineComponent (m : Machine σ) (type : String) (body : Value) (t : Ticket) : Machine σ :=
  match m.prepare type body with
  | .error f => m.answer (t.fail f)
  | .ok (name, component) =>
    let i : Instance σ := ⟨name, component, [], .idle, false⟩
    let m :=
      { m with
        live := Table.put m.live name t.serial
        instances := m.instances ++ [(t.serial, i)] }
    m.answer (t.done (.map [("component", .string name), ("type", .string type)]))

def deleteComponent (m : Machine σ) (name : String) (t : Ticket) : Machine σ :=
  match Table.find? m.live name with
  | none => m.answer (t.fail (.notFound "component" name))
  | some id =>
    { m with
      live := Table.erase m.live name
      instances := Table.modify m.instances id fun i => { i with deleted := true }
      waiters := m.waiters ++ [(t.serial, ⟨t, id⟩)] }

def callMethod (m : Machine σ) (name method : String) (args : Value) (t : Ticket) : Machine σ :=
  match (Table.find? m.live name).bind fun id =>
      (Table.find? m.instances id).map fun i => (id, i) with
  | none => m.answer (t.fail (.notFound "component" name))
  | some (id, i) =>
    if i.phase.accepts then
      let call : MethodCall := ⟨t, method, args⟩
      { m with
        inflight := Table.put m.inflight t.key t.serial
        instances := Table.modify m.instances id fun i =>
          { i with mailbox := i.mailbox ++ [call] } }
    else
      let m := { m with inflight := Table.erase m.inflight t.key }
      m.answer (t.fail (.notFound "component" name))

/-- Trips the call that was last taken on under this key, and tells whether there is one. -/
def cancel (m : Machine σ) (serial : Nat) (origin : ClientId) (tx : String) : Machine σ :=
  match Table.find? m.inflight (origin, tx) with
  | some call =>
    let m := { m with tripped := call :: m.tripped }
    m.answer ⟨serial, origin, none, .respondOk tx⟩
  | none => m.answer ⟨serial, origin, none, .respondFault tx (.unknownTransaction tx)⟩

/-- Takes a request. -/
def handle (m : Machine σ) (r : Request) : Machine σ :=
  let serial := m.serial
  let m := { m with serial := serial + 1 }
  match r with
  | .cancel origin tx => m.cancel serial origin tx
  | .execute origin target packet =>
    let t : Ticket := ⟨serial, origin, packet.tx, target, 0⟩
    match target with
    | .function name => m.callFunction name packet.args t
    | .componentType type => m.defineComponent type packet.body t
    | .component name => m.deleteComponent name t
    | .method name method => m.callMethod name method packet.args t

/-! A cancel that has begun is answered before the machine turns to anything else. -/

/-- Begins a cancel: trips the call that was last taken on under this key. -/
def trip (m : Machine σ) (key : CallKey) : Machine σ :=
  { m with
    tripped := (Table.find? m.inflight key).toList ++ m.tripped
    begun := some (m.serial, key) }

/-- The key of the cancel that has begun and is not answered yet. -/
def cancelling? (m : Machine σ) : Option CallKey :=
  match m.begun with
  | none => none
  | some (serial, key) => if serial < m.serial then none else some key

/-- Whether the machine turns to nothing new. -/
def isBusy (m : Machine σ) : Bool := m.halted || m.cancelling?.isSome

/-- Whether the machine does not take this request now. -/
def defers (m : Machine σ) (r : Request) : Bool :=
  m.halted || m.cancelling?.any fun key => !r.cancels key

/-- Forgets a call that told its end. -/
def notice? (m : Machine σ) : Option (Machine σ) :=
  match m.notices with
  | [] => none
  | key :: rest => some { m with notices := rest, inflight := Table.erase m.inflight key }

/-- Asks the machine to stop; every call is cancelled from then on. -/
def stop (m : Machine σ) : Machine σ := { m with stopping := true }

/-- Takes no more requests. -/
def halt? (m : Machine σ) : Option (Machine σ) :=
  if m.stopping && !m.halted then some { m with halted := true, live := [] } else none

/-! ## Tasks -/

def isCancelled (m : Machine σ) (t : Ticket) : Bool := m.stopping || m.tripped.contains t.serial

def setWork (m : Machine σ) (id : Nat) (t : Ticket) (w : Work) : Machine σ :=
  { m with tasks := Table.put m.tasks id ⟨t, w⟩ }

/-- Answers a task for good. -/
def endTask (m : Machine σ) (id : Nat) (t : Ticket) (rs : List Reply) : Machine σ :=
  (m.answerAll rs).setWork id t .answered

/-- Begins a call, unless it is cancelled. -/
def startTask (m : Machine σ) (id : Nat) (t : Ticket) (op : Operator) (args : Value) : Machine σ :=
  if m.isCancelled t then m.endTask id t [t.fail .cancelled] else m.setWork id t (.begun op args)

/-- Runs the operator of a call that has begun. -/
def runTask (m : Machine σ) (id : Nat) (t : Ticket) (op : Operator) (args : Value) (now : Nat) :
    Machine σ :=
  match op with
  | .instant run => m.endTask id t [t.finish (run args)]
  | .streaming run =>
    match run args with
    | .ok stream => m.setWork id t (.drive (Drive.start stream now))
    | .error f => m.endTask id t [t.fail f]

/-- Moves a task, if it can move. -/
def stepTask? (m : Machine σ) (id now : Nat) : Option (Machine σ) := do
  let task ← Table.find? m.tasks id
  match task.work with
  | .start op args => some (m.startTask id task.ticket op args)
  | .begun op args => some (m.runTask id task.ticket op args now)
  | .drive d =>
    match d.advance task.ticket (m.isCancelled task.ticket) now with
    | .waiting => none
    | .more rs t d => some ((m.answerAll rs).setWork id t (.drive d))
    | .ended rs => some (m.endTask id task.ticket rs)
  | .answered =>
    let m := m.notify task.ticket.key
    some { m with tasks := Table.erase m.tasks id }

/-! ## Instances -/

def setInstance (m : Machine σ) (id : Nat) (i : Instance σ) : Machine σ :=
  { m with instances := Table.put m.instances id i }

/-- Whether an instance takes no more calls from its mailbox. -/
def isClosed (m : Machine σ) (i : Instance σ) : Bool := m.stopping || i.deleted

/-- Answers the call of an instance for good. -/
def endCall (m : Machine σ) (id : Nat) (i : Instance σ) (t : Ticket) (rs : List Reply) :
    Machine σ :=
  (m.answerAll rs).setInstance id { i with phase := .answered t.key }

/-- Begins a call that was taken. An unknown method is reported whether the call was cancelled or not;
the body of a cancelled call does not run. -/
def invoke (m : Machine σ) (id : Nat) (i : Instance σ) (call : MethodCall) : Machine σ :=
  let t := call.ticket
  match Table.find? i.component.methods call.method with
  | none => m.endCall id i t [t.fail (.notFound "method" (i.name ++ "." ++ call.method))]
  | some method =>
    if m.isClosed i || m.isCancelled t then m.endCall id i t [t.fail .cancelled]
    else m.setInstance id { i with phase := .begun call method }

/-- Runs the method of a call that has begun. -/
def perform (m : Machine σ) (id : Nat) (i : Instance σ) (call : MethodCall) (method : Method σ)
    (now : Nat) : Machine σ :=
  let t := call.ticket
  match method with
  | .instant run =>
    let (result, state) := run i.component.state call.args
    m.endCall id { i with component := { i.component with state := state } } t [t.finish result]
  | .streaming run =>
    let (result, state) := run i.component.state call.args
    let i := { i with component := { i.component with state := state } }
    match result with
    | .ok stream => m.setInstance id { i with phase := .driving t (Drive.start stream now) }
    | .error f => m.endCall id i t [t.fail f]

/-- Refuses the next call of a closing instance; without one, runs the teardown hook. -/
def drain (m : Machine σ) (id : Nat) (i : Instance σ) : Machine σ :=
  match i.mailbox with
  | call :: rest =>
    (m.answer (call.ticket.fail (.notFound "component" i.name))).setInstance id
      { i with mailbox := rest, phase := .drained call.ticket.key }
  | [] =>
    let m := { m with log := m.log ++ i.component.teardown i.component.state }
    m.setInstance id { i with phase := .ended }

/-- Moves an instance, if it can move. -/
def stepInstance? (m : Machine σ) (id now : Nat) : Option (Machine σ) := do
  let i ← Table.find? m.instances id
  match i.phase with
  | .idle =>
    if m.isClosed i then some (m.setInstance id { i with phase := .closing })
    else
      match i.mailbox with
      | [] => none
      | call :: rest => some (m.setInstance id { i with mailbox := rest, phase := .taken call })
  | .taken call => some (m.invoke id i call)
  | .begun call method => some (m.perform id i call method now)
  | .driving t d =>
    match d.advance t (m.isClosed i || m.isCancelled t) now with
    | .waiting => none
    | .more rs t d => some ((m.answerAll rs).setInstance id { i with phase := .driving t d })
    | .ended rs => some (m.endCall id i t rs)
  | .answered key =>
    some ((m.notify key).setInstance id { i with phase := .idle })
  | .closing => some (m.drain id i)
  | .drained key =>
    some ((m.notify key).setInstance id { i with phase := .closing })
  | .ended => none

/-! ## Waiters -/

/-- Answers a delete whose instance has ended. -/
def stepWaiter? (m : Machine σ) (id : Nat) : Option (Machine σ) := do
  let w ← Table.find? m.waiters id
  let i ← Table.find? m.instances w.instanceId
  match i.phase with
  | .ended =>
    let m := { m with waiters := Table.erase m.waiters id }
    some (m.answer (w.ticket.done .null))
  | _ => none

/-! ## Runs -/

/-- Everything that can happen to a machine, at a time. -/
inductive Move where
  | trip (key : CallKey)
  | request (r : Request)
  | stop
  | halt
  | notice
  | task (id now : Nat)
  | «instance» (id now : Nat)
  | waiter (id : Nat)

/-- What a move leads to, if it can be made; a halted machine takes no request. A cancel that nothing
moves in between is one move, a request. -/
def move? (m : Machine σ) : Move → Option (Machine σ)
  | .trip key => if m.isBusy then none else some (m.trip key)
  | .request r => if m.defers r then none else some (m.handle r)
  | .stop => some m.stop
  | .halt => if m.isBusy then none else m.halt?
  | .notice => if m.isBusy then none else m.notice?
  | .task id now => m.stepTask? id now
  | .instance id now => m.stepInstance? id now
  | .waiter id => m.stepWaiter? id

/-- One machine after another by moves that can be made. -/
inductive Reaches : Machine σ → Machine σ → Prop where
  | refl (m : Machine σ) : Reaches m m
  | move {m n k : Machine σ} (l : Move) : Reaches m n → n.move? l = some k → Reaches m k

/-! ## One schedule -/

/-- The moves that the machine itself makes before it takes a request. -/
def upkeep? (m : Machine σ) : Option (Machine σ) :=
  match m.move? .halt with
  | some n => some n
  | none => m.move? .notice

/-- The first move of a task, an instance or a waiter that can be made at `now`. -/
def work? (m : Machine σ) (now : Nat) : Option (Machine σ) :=
  match m.tasks.findSome? fun entry => m.move? (.task entry.1 now) with
  | some n => some n
  | none =>
    match m.instances.findSome? fun entry => m.move? (.instance entry.1 now) with
    | some n => some n
    | none => m.waiters.findSome? fun entry => m.move? (.waiter entry.1)

/-- When something that is waiting for time moves next. -/
def due? (m : Machine σ) : Option Nat :=
  let ofTask (entry : Nat × Task) : Option Nat :=
    match entry.2.work with
    | .drive d => d.due?
    | _ => none
  let ofInstance (entry : Nat × Instance σ) : Option Nat :=
    match entry.2.phase with
    | .driving _ d => d.due?
    | _ => none
  (m.tasks.filterMap ofTask ++ m.instances.filterMap ofInstance).min?

end Machine

end Patchbay
