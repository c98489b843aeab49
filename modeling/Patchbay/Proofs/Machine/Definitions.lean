import Patchbay.Proofs.Packets
import Patchbay.Proofs.Machine.Serving

/-!
# Defining components

A define is checked before anything is made: it gives a name, the name is a text, the name is free, and
the type is known. Only then the factory runs, once. A define that is refused changes nothing but that
it is answered, and so it is with a delete or a call of what there is not.
-/

namespace Patchbay

variable {σ : Type}

/-- What a define makes if its name is free. -/
structure Makes (registry : Registry σ) (type : String) (packet : Packet) (name : String)
    (component : Component σ) : Prop where
  given : packet.body.get? "name" = some (.string name)
  made : ∃ factory, registry.factory? type = some factory ∧ factory packet.args = .ok component

/-- The fault of a define, and its code, when `names` are in use. Each case fails one check and passes
those of the cases before it. -/
inductive Refusal (registry : Registry σ) (names : List String) (type : String) (packet : Packet) :
    String → Fault → Prop where
  | unnamed (absent : packet.body.get? "name" = none) :
      Refusal registry names type packet "RangeError" (.outOfRange "define_component" "name")
  | notText {v : Value} (given : packet.body.get? "name" = some v) (other : ∀ name, v ≠ .string name) :
      Refusal registry names type packet "TypeError"
        (.wrongType "define_component" "name" "string" v.typeName)
  | inUse {name : String} (given : packet.body.get? "name" = some (.string name))
      (taken : name ∈ names) :
      Refusal registry names type packet "AlreadyExists" (.alreadyExists name)
  | unknownType {name : String} (given : packet.body.get? "name" = some (.string name))
      (free : name ∉ names) (unknown : registry.factory? type = none) :
      Refusal registry names type packet "UnknownComponentType" (.unknownComponentType type)
  | rejected {name : String} {factory : Factory σ} {f : Fault}
      (given : packet.body.get? "name" = some (.string name)) (free : name ∉ names)
      (known : registry.factory? type = some factory) (rejects : factory packet.args = .error f) :
      Refusal registry names type packet f.code f

theorem Refusal.code {registry : Registry σ} {names : List String} {type code : String}
    {packet : Packet} {f : Fault} (refusal : Refusal registry names type packet code f) :
    f.code = code := by
  cases refusal <;> rfl

theorem Ticket.done_failure? (t : Ticket) (v : Value) : (t.done v).packet.failure? = none :=
  Packet.output_failure? ..

theorem Ticket.fail_failure? (t : Ticket) (f : Fault) :
    (t.fail f).packet.failure? = some ⟨f.code, f.message⟩ :=
  Packet.outputFault_failure? ..

namespace Machine

variable {registry : Registry σ} {m k n : Machine σ} {es : List (Occurrence σ)}
  {type code name : String} {packet : Packet} {component : Component σ} {f : Fault}
  {origin : ClientId} {t : Ticket}

/-! ## Checking a define -/

theorem prepare_of_makes (makes : Makes m.registry type packet name component)
    (free : name ∉ Table.keys m.live) : m.prepare type packet.body = .ok (name, component) := by
  obtain ⟨given, factory, known, made⟩ := makes
  have unused : Table.has m.live name = false := by
    rw [← Bool.not_eq_true, Table.has_iff]
    exact free
  have args : (packet.body.get? "args").getD .null = packet.args := rfl
  simp [prepare, nameToDefine, given, unused, known, args, made, bind, Except.bind, pure, Except.pure]

theorem prepare_of_refusal (refusal : Refusal m.registry (Table.keys m.live) type packet code f) :
    m.prepare type packet.body = .error f := by
  have unused {name : String} (free : name ∉ Table.keys m.live) : Table.has m.live name = false := by
    rw [← Bool.not_eq_true, Table.has_iff]
    exact free
  have args : (packet.body.get? "args").getD .null = packet.args := rfl
  cases refusal with
  | unnamed absent => simp [prepare, nameToDefine, absent, bind, Except.bind]
  | @notText v given other =>
    have wrong : nameToDefine packet.body =
        .error (.wrongType "define_component" "name" "string" v.typeName) := by
      rw [nameToDefine, given]
      cases v with
      | string name => exact absurd rfl (other name)
      | _ => rfl
    simp [prepare, wrong, bind, Except.bind]
  | inUse given taken =>
    simp [prepare, nameToDefine, given, Table.has_iff.2 taken, bind, Except.bind]
  | unknownType given free unknown =>
    simp [prepare, nameToDefine, given, unused free, unknown, bind, Except.bind]
  | rejected given free known rejects =>
    simp [prepare, nameToDefine, given, unused free, known, args, rejects, bind, Except.bind]

/-- Every define makes something or is refused. -/
theorem makes_or_refusal (registry : Registry σ) (names : List String) (type : String)
    (packet : Packet) :
    (∃ name component, Makes registry type packet name component ∧ name ∉ names) ∨
      ∃ code f, Refusal registry names type packet code f := by
  cases given : packet.body.get? "name" with
  | none => exact .inr ⟨_, _, .unnamed given⟩
  | some v =>
    by_cases text : ∃ name, v = .string name
    · obtain ⟨name, rfl⟩ := text
      by_cases taken : name ∈ names
      · exact .inr ⟨_, _, .inUse given taken⟩
      · cases known : registry.factory? type with
        | none => exact .inr ⟨_, _, .unknownType given taken known⟩
        | some factory =>
          cases result : factory packet.args with
          | error f => exact .inr ⟨_, _, .rejected given taken known result⟩
          | ok component => exact .inl ⟨name, component, ⟨given, factory, known, result⟩, taken⟩
    · exact .inr ⟨_, _, .notText given fun name same => text ⟨name, same⟩⟩

/-- Of all factories only that of the type is asked, only for the arguments of the define, and only if
the name passes its checks. -/
theorem prepare_congr {other : Registry σ}
    (same : ∀ name, packet.body.get? "name" = some (.string name) → name ∉ Table.keys m.live →
      (other.factory? type).map (· packet.args) = (m.registry.factory? type).map (· packet.args)) :
    prepare { m with registry := other } type packet.body = m.prepare type packet.body := by
  have moved {name : String} {component : Component σ}
      (makes : Makes m.registry type packet name component) (free : name ∉ Table.keys m.live) :
      Makes other type packet name component := by
    obtain ⟨given, factory, known, made⟩ := makes
    have agree := same name given free
    rw [known, Option.map_some, made] at agree
    exact ⟨given, Option.map_eq_some_iff.1 agree⟩
  rcases makes_or_refusal m.registry (Table.keys m.live) type packet with
    ⟨name, component, makes, free⟩ | ⟨code, f, refusal⟩
  · rw [prepare_of_makes makes free]
    exact prepare_of_makes (m := { m with registry := other }) (moved makes free) free
  · rw [prepare_of_refusal refusal]
    have still : Refusal other (Table.keys m.live) type packet code f := by
      cases refusal with
      | unnamed absent => exact .unnamed absent
      | notText given other => exact .notText given other
      | inUse given taken => exact .inUse given taken
      | unknownType given free unknown =>
        have agree := same _ given free
        rw [unknown, Option.map_none, Option.map_eq_none_iff] at agree
        exact .unknownType given free agree
      | rejected given free known rejects =>
        have agree := same _ given free
        rw [known, Option.map_some, rejects] at agree
        obtain ⟨factory, there, result⟩ := Option.map_eq_some_iff.1 agree
        exact .rejected given free there result
    exact prepare_of_refusal (m := { m with registry := other }) still

/-! ## Handling a define -/

/-- The machine behind a request that it refuses. -/
def refuse (m : Machine σ) (t : Ticket) (f : Fault) : Machine σ :=
  { m with serial := m.serial + 1, replies := m.replies ++ [t.fail f] }

/-- The machine behind a define that succeeds. -/
def afterDefine (m : Machine σ) (t : Ticket) (type name : String) (component : Component σ) :
    Machine σ :=
  { m with
    serial := m.serial + 1
    live := m.live ++ [(name, m.serial)]
    instances := m.instances ++ [(m.serial, newborn name component)]
    replies := m.replies ++ [t.done (.map [("component", .string name), ("type", .string type)])] }

/-- A component can be defined under this name at once. -/
def Definable (m : Machine σ) (name : String) : Prop :=
  ∀ origin type packet component, Makes m.registry type packet name component →
    m.move? (.request (.execute origin (.componentType type) packet)) = some
      (m.afterDefine (.issue m.serial origin (.componentType type) packet) type name component)

theorem handle_define_of_makes (makes : Makes m.registry type packet name component)
    (free : name ∉ Table.keys m.live) :
    m.handle (.execute origin (.componentType type) packet) =
      m.afterDefine (.issue m.serial origin (.componentType type) packet) type name component := by
  have made : prepare { m with serial := m.serial + 1 } type packet.body = .ok (name, component) :=
    prepare_of_makes makes free
  simp only [handle, defineComponent, made]
  rw [Table.put_of_not_mem _ free]
  rfl

theorem handle_define_of_refusal
    (refusal : Refusal m.registry (Table.keys m.live) type packet code f) :
    m.handle (.execute origin (.componentType type) packet) =
      m.refuse (.issue m.serial origin (.componentType type) packet) f := by
  have refused : prepare { m with serial := m.serial + 1 } type packet.body = .error f :=
    prepare_of_refusal refusal
  simp only [handle, defineComponent, refused]
  rfl

theorem definable_of_free (idle : m.isBusy = false) (free : name ∉ Table.keys m.live) :
    Definable m name := fun _ _ _ _ makes =>
  move_request_iff.2 ⟨takes_of_idle idle _, handle_define_of_makes makes free⟩

/-- What taking a define with the ticket `t` in the machine `m` leads to. -/
structure DefineTaken (m : Machine σ) (t : Ticket) (type : String) (packet : Packet)
    (k : Machine σ) : Prop where
  /-- It is answered at once, with success just when its factory accepts and its name is free. -/
  succeeds_iff : (∃ r, k.replies = m.replies ++ [r] ∧ r.packet.failure? = none) ↔
    ∃ name component, Makes m.registry type packet name component ∧ name ∉ Table.keys m.live
  /-- Then the component is there under its name. -/
  made : ∀ name component, Makes m.registry type packet name component →
    name ∉ Table.keys m.live → k = m.afterDefine t type name component
  /-- Else it has the fault of the first check that fails. Nothing but the answer is left behind, and
  the name is as free as it was. -/
  refused : (¬ ∃ name component, Makes m.registry type packet name component ∧
      name ∉ Table.keys m.live) →
    ∃ code f, Refusal m.registry (Table.keys m.live) type packet code f ∧ k = m.refuse t f ∧
      (t.fail f).packet.failure? = some ⟨code, f.message⟩ ∧
      ∀ name, name ∉ Table.keys m.live → k.Definable name
  /-- There is one such fault. -/
  unique : ∀ code f other g, Refusal m.registry (Table.keys m.live) type packet code f →
    Refusal m.registry (Table.keys m.live) type packet other g → code = other ∧ f = g
  /-- No factory has a say but that of the type, on these arguments, behind all checks of the name. -/
  asked : ∀ registry : Registry σ,
    (∀ name, packet.body.get? "name" = some (.string name) → name ∉ Table.keys m.live →
      (registry.factory? type).map (· packet.args) =
        (m.registry.factory? type).map (· packet.args)) →
    move? { m with registry := registry } (.request (.execute t.origin (.componentType type) packet)) =
      some { k with registry := registry }

theorem define_taken
    (step : m.move? (.request (.execute origin (.componentType type) packet)) = some k) :
    DefineTaken m (.issue m.serial origin (.componentType type) packet) type packet k := by
  have idle := idle_of_execute step
  obtain ⟨takes, rfl⟩ := move_request_iff.1 step
  have refused {code : String} {f : Fault}
      (refusal : Refusal m.registry (Table.keys m.live) type packet code f) :
      ¬ ∃ name component, Makes m.registry type packet name component ∧
        name ∉ Table.keys m.live := by
    rintro ⟨name, component, makes, free⟩
    have same := (prepare_of_makes makes free).symm.trans (prepare_of_refusal refusal)
    cases same
  constructor
  case succeeds_iff =>
    constructor
    · rintro ⟨r, replies, success⟩
      refine (makes_or_refusal m.registry (Table.keys m.live) type packet).resolve_right ?_
      rintro ⟨code, f, refusal⟩
      rw [handle_define_of_refusal refusal] at replies
      obtain ⟨rfl, -⟩ := List.cons.inj (List.append_cancel_left replies)
      rw [Ticket.fail_failure?] at success
      cases success
    · rintro ⟨name, component, makes, free⟩
      rw [handle_define_of_makes makes free]
      exact ⟨_, rfl, Ticket.done_failure? ..⟩
  case made => exact fun name component makes free => handle_define_of_makes makes free
  case refused =>
    intro unmade
    obtain ⟨code, f, refusal⟩ :=
      (makes_or_refusal m.registry (Table.keys m.live) type packet).resolve_left unmade
    rw [handle_define_of_refusal refusal] at idle ⊢
    refine ⟨code, f, refusal, rfl, ?_, fun name free => definable_of_free idle free⟩
    rw [Ticket.fail_failure?, refusal.code]
  case unique =>
    intro code f other g first second
    have same := (prepare_of_refusal first).symm.trans (prepare_of_refusal second)
    cases same
    exact ⟨first.code.symm.trans second.code, rfl⟩
  case asked =>
    intro registry same
    refine move_request_iff.2 ⟨takes, ?_⟩
    have prepared : prepare { m with registry := registry, serial := m.serial + 1 } type packet.body =
        prepare { m with serial := m.serial + 1 } type packet.body :=
      prepare_congr (m := { m with serial := m.serial + 1 }) same
    simp only [handle, defineComponent, prepared]
    cases prepare { m with serial := m.serial + 1 } type packet.body <;> rfl

end Machine

end Patchbay
