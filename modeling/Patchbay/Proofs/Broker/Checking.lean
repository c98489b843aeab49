import Patchbay.Proofs.Broker.Delivery

/-!
# Checking packets

Which packets of a client break the protocol, and what the broker does for the others. Later proofs
about the broker go through `Took`, which lists everything that taking an event or a reply can come
to, and do not open the handlers again.
-/

namespace Patchbay.Broker

variable {c d : ClientId} {b : Broker} {links : Links} {machineOpen connected : Bool} {p : Packet}

/-- A connect names the version of the protocol that there is, or none. -/
def VersionAgrees (p : Packet) : Prop :=
  ∀ v, p.headers.find Header.version = some v → v = .string protocolVersion

/-- A connect that opens a connection. -/
structure ValidConnect (p : Packet) : Prop where
  type : p.type = .connect
  valid : p.validate = .ok ()
  version : VersionAgrees p

/-- A packet that breaks the protocol, by whether its client is connected. -/
inductive Offends (connected : Bool) (p : Packet) : Prop where
  | invalid {v : Violation} (invalid : p.validate = .error v)
  | version (type : p.type = .connect) (other : ¬ VersionAgrees p)
  | early (type : p.type ≠ .connect) (unconnected : connected = false)
  | reply (type : p.type = .respond ∨ p.type = .respondExecute)
  | untargeted {v : Violation} (type : p.type.carriesInstruction = true)
      (nowhere : p.target = .error v)

/-- A packet that is in order, and the target it names. -/
inductive Checked (p : Packet) : Bool → Option Target → Prop where
  | connect {connected : Bool} (type : p.type = .connect) (version : VersionAgrees p) :
      Checked p connected none
  | plain (type : p.type = .disconnect ∨ p.type = .cancel) : Checked p true none
  | targeted {t : Target} (type : p.type.carriesInstruction = true) (target : p.target = .ok t) :
      Checked p true (some t)

theorem checkVersion_iff : checkVersion p = .ok () ↔ VersionAgrees p := by
  unfold checkVersion VersionAgrees
  cases p.headers.find Header.version with
  | none => simp
  | some v =>
    cases v with
    | string version => by_cases same : version = protocolVersion <;> simp [same]
    | _ => simp

theorem check_checked {target : Option Target} (ok : check connected p = .ok target) :
    p.validate = .ok () ∧ Checked p connected target := by
  cases valid : p.validate with
  | error v => simp [check, valid, bind, Except.bind] at ok
  | ok done =>
    refine ⟨rfl, ?_⟩
    simp only [check, valid, bind, Except.bind] at ok
    split at ok
    · next type =>
      cases version : checkVersion p with
      | error v => simp [version] at ok
      | ok done =>
        simp only [version] at ok
        cases ok
        exact .connect type (checkVersion_iff.1 version)
    · cases connected with
      | false => cases ok
      | true =>
        simp only [Bool.not_true, Bool.false_eq_true, if_false] at ok
        cases type : p.type with
        | connect => contradiction
        | respond | respondExecute => simp [type] at ok
        | disconnect | cancel =>
          simp only [type] at ok
          cases ok
          exact .plain (by simp [type])
        | subscribe | unsubscribe | execute =>
          cases named : p.target with
          | error v => simp [type, named] at ok
          | ok t =>
            simp only [type, named] at ok
            cases ok
            exact .targeted (by rw [type]; rfl) named

theorem check_of_checked {target : Option Target} (valid : p.validate = .ok ())
    (checked : Checked p connected target) : check connected p = .ok target := by
  cases checked with
  | connect type version =>
    simp [check, valid, bind, Except.bind, type, checkVersion_iff.2 version]
    rfl
  | plain type =>
    rcases type with type | type <;> simp [check, valid, bind, Except.bind, type] <;> rfl
  | targeted type target =>
    cases kind : p.type with
    | subscribe | unsubscribe | execute =>
      simp [check, valid, bind, Except.bind, kind, target]
      rfl
    | _ => simp [kind, PacketType.carriesInstruction] at type

/-- A packet that is in order does not break the protocol. -/
theorem Checked.inOrder {target : Option Target} (checked : Checked p connected target)
    (valid : p.validate = .ok ()) : ¬ Offends connected p := by
  intro offends
  cases offends with
  | invalid invalid =>
    rw [valid] at invalid
    cases invalid
  | version type other =>
    cases checked with
    | connect kind version => exact other version
    | plain kind => simp [type] at kind
    | targeted kind target => simp [type, PacketType.carriesInstruction] at kind
  | early type unconnected =>
    subst unconnected
    cases checked with
    | connect connects version => exact type connects
  | reply type =>
    cases checked with
    | connect kind => simp [kind] at type
    | plain kind => rcases kind with kind | kind <;> simp [kind] at type
    | targeted kind target =>
      rcases type with type | type <;> simp [type, PacketType.carriesInstruction] at kind
  | untargeted type nowhere =>
    cases checked with
    | connect kind => simp [kind, PacketType.carriesInstruction] at type
    | plain kind =>
      rcases kind with kind | kind <;> simp [kind, PacketType.carriesInstruction] at type
    | targeted kind target =>
      rw [target] at nowhere
      cases nowhere

theorem checked_or_offends (connected : Bool) (p : Packet) :
    (p.validate = .ok () ∧ ∃ target, Checked p connected target) ∨ Offends connected p := by
  cases valid : p.validate with
  | error v => exact .inr (.invalid valid)
  | ok done =>
    by_cases connects : p.type = .connect
    · by_cases version : VersionAgrees p
      · exact .inl ⟨rfl, none, .connect connects version⟩
      · exact .inr (.version connects version)
    · cases connected with
      | false => exact .inr (.early connects rfl)
      | true =>
        cases type : p.type with
        | connect => exact absurd type connects
        | respond => exact .inr (.reply (.inl type))
        | respondExecute => exact .inr (.reply (.inr type))
        | disconnect | cancel => exact .inl ⟨rfl, none, .plain (by simp [type])⟩
        | subscribe | unsubscribe | execute =>
          have targeted : p.type.carriesInstruction = true := by rw [type]; rfl
          cases target : p.target with
          | error v => exact .inr (.untargeted targeted target)
          | ok t => exact .inl ⟨rfl, some t, .targeted targeted target⟩

/-- A packet is refused exactly when it breaks the protocol. -/
theorem check_error_iff : (∃ v, check connected p = .error v) ↔ Offends connected p := by
  constructor
  · rintro ⟨v, refused⟩
    refine (checked_or_offends connected p).resolve_left ?_
    rintro ⟨valid, target, checked⟩
    rw [check_of_checked valid checked] at refused
    cases refused
  · intro offends
    cases outcome : check connected p with
    | error v => exact ⟨v, rfl⟩
    | ok target =>
      obtain ⟨valid, checked⟩ := check_checked outcome
      exact absurd offends (checked.inOrder valid)

theorem ValidConnect.inOrder (connect : ValidConnect p) (connected : Bool) :
    ¬ Offends connected p :=
  (Checked.connect connect.type connect.version).inOrder connect.valid

/-! ## All that taking something can come to -/

/-- What the broker takes: an event of a link, or a reply of the machine. -/
inductive Input where
  | event (e : Event)
  | reply (r : Reply)

/-- Takes an event or a reply. -/
def take (links : Links) (machineOpen : Bool) (b : Broker) : Input → Outcome
  | .event e => b.handle links machineOpen e
  | .reply r => b.deliverReply links r

/-- A packet of a client asks for a request: an execute with its target, or a cancel. -/
def Asks (c : ClientId) (p : Packet) : Request → Prop
  | .execute d t q => d = c ∧ q = p ∧ p.type = .execute ∧ p.target = .ok t
  | .cancel d tx => d = c ∧ p.type = .cancel ∧ tx = p.tx

/-- The answer to an unsubscribe: whether the client was subscribed. -/
inductive UnsubscribeAnswer (p : Packet) (t : Target) : Packet → Prop where
  | ok : UnsubscribeAnswer p t (.respondOk p.tx)
  | absent : UnsubscribeAnswer p t (.respondFault p.tx (.notFound "subscription" t.text))

/-- All that taking an event or a reply can come to, by whether there is a machine to ask. -/
inductive Took (links : Links) (b : Broker) : Bool → Input → Outcome → Prop where
  | accepts {machineOpen : Bool} (c : ClientId) :
      Took links b machineOpen (.event (.accepted c))
        ({ b with clients := Table.put b.clients c false }, [])
  | closes {machineOpen : Bool} (c : ClientId) :
      Took links b machineOpen (.event (.closed c)) (b.removeClient c)
  | ignores {machineOpen : Bool} {c : ClientId} {p : Packet}
      (stranger : Table.find? b.clients c = none) :
      Took links b machineOpen (.event (.packet c p)) (b, [])
  | refuses {machineOpen connected : Bool} {c : ClientId} {p : Packet} {v : Violation}
      (found : Table.find? b.clients c = some connected) (refused : check connected p = .error v) :
      Took links b machineOpen (.event (.packet c p)) (b.refuse links c p v)
  | greets {machineOpen : Bool} {c : ClientId} {p : Packet} (known : Table.has b.clients c)
      (connect : ValidConnect p) :
      Took links b machineOpen (.event (.packet c p))
        ({ b with clients := Table.put b.clients c true }.send links c (.respondOk p.tx))
  | leaves {machineOpen : Bool} {c : ClientId} {p : Packet}
      (found : Table.find? b.clients c = some true) (type : p.type = .disconnect) :
      Took links b machineOpen (.event (.packet c p))
        (andThen (b.send links c (.respondOk p.tx)) (·.removeClient c))
  | subscribes {machineOpen : Bool} {c : ClientId} {p : Packet} {t : Target}
      (found : Table.find? b.clients c = some true) (type : p.type = .subscribe) :
      Took links b machineOpen (.event (.packet c p))
        ({ b with subscriptions := (b.subscriptions.subscribe t c).1 }.send links c
          (.respondOk p.tx))
  | unsubscribes {machineOpen : Bool} {c : ClientId} {p q : Packet} {t : Target}
      (found : Table.find? b.clients c = some true) (type : p.type = .unsubscribe)
      (target : p.target = .ok t) (answer : UnsubscribeAnswer p t q) :
      Took links b machineOpen (.event (.packet c p))
        ({ b with subscriptions := (b.subscriptions.unsubscribe t c).1 }.send links c q)
  | asks {c : ClientId} {p : Packet} {r : Request} (found : Table.find? b.clients c = some true)
      (valid : p.validate = .ok ()) (asks : Asks c p r) :
      Took links b true (.event (.packet c p)) (b, [.request r])
  | fails {c : ClientId} {p : Packet} {r : Request} (found : Table.find? b.clients c = some true)
      (asks : Asks c p r) :
      Took links b false (.event (.packet c p)) (b.deliverReply links (unavailable r))
  | replies {machineOpen : Bool} (r : Reply) :
      Took links b machineOpen (.reply r) (b.deliverReply links r)

theorem act_took {target : Option Target} (found : Table.find? b.clients c = some connected)
    (valid : p.validate = .ok ()) (checked : Checked p connected target) :
    Took links b machineOpen (.event (.packet c p)) (b.act links machineOpen c p target) := by
  have known : Table.has b.clients c := Option.isSome_iff_exists.2 ⟨connected, found⟩
  cases checked with
  | connect type version =>
    simp only [act, type]
    exact .greets known ⟨type, valid, version⟩
  | plain type =>
    rcases type with type | type
    · simp only [act, type]
      exact .leaves found type
    · have asks : Asks c p (.cancel c p.tx) := ⟨rfl, type, rfl⟩
      simp only [act, type, cancel]
      cases machineOpen with
      | true => exact .asks found valid asks
      | false =>
        have fails : Took links b false _ _ := .fails found asks
        rwa [unavailable, deliverReply_alone rfl] at fails
  | @targeted t type target =>
    cases kind : p.type with
    | subscribe =>
      simp only [act, kind]
      exact .subscribes found kind
    | unsubscribe =>
      simp only [act, kind, unsubscribe]
      split
      · exact .unsubscribes found kind target .ok
      · exact .unsubscribes found kind target .absent
    | execute =>
      have asks : Asks c p (.execute c t p) := ⟨rfl, rfl, kind, target⟩
      simp only [act, kind, execute]
      cases machineOpen with
      | true => exact .asks found valid asks
      | false => exact .fails found asks
    | _ => simp [kind, PacketType.carriesInstruction] at type

theorem take_took (links : Links) (machineOpen : Bool) (b : Broker) (input : Input) :
    Took links b machineOpen input (b.take links machineOpen input) := by
  cases input with
  | reply r => exact .replies r
  | event e =>
    cases e with
    | accepted c => exact .accepts c
    | closed c => exact .closes c
    | packet c p =>
      simp only [take, handle, handlePacket]
      cases found : Table.find? b.clients c with
      | none => exact .ignores found
      | some connected =>
        dsimp only
        cases checked : check connected p with
        | error v => exact .refuses found checked
        | ok target =>
          obtain ⟨valid, checked⟩ := check_checked checked
          exact act_took found valid checked

end Patchbay.Broker
