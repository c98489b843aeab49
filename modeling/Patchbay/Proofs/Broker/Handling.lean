import Patchbay.Proofs.Broker.Sending

/-!
# Handling events

An event either asks something of the machine or concerns the broker alone. What it asks is passed
on, or, when the machine is gone, answered in its place; for any other event the broker at most notes
something down and answers in the packet's own transaction. So it passes no packet of a transaction
whose packets are executes and cancels.
-/

namespace Patchbay.Broker

/-- What an event makes the broker ask of the machine. -/
def ask? (b : Broker) : Event → Option Request
  | .packet d p =>
    (Table.find? b.clients d).bind fun connected =>
      match check connected p, p.type with
      | .ok (some t), .execute => some (.execute d t p)
      | .ok _, .cancel => some (.cancel d p.tx)
      | _, _ => none
  | _ => none

/-- The answer to a request in place of a machine that is gone. -/
def unavailable : Request → Reply
  | .execute d t p => ⟨0, d, some t, .outputFault p.tx 0 .machineGone⟩
  | .cancel d tx => ⟨0, d, none, .respondFault tx .machineGone⟩

variable {c d : ClientId} {x : String} {b : Broker} {links : Links} {machineOpen : Bool}
  {p : Packet}

/-- A reply that goes to one client only. -/
theorem deliverReply_alone {r : Reply}
    (alone : b.subscriptions.recipients r.origin r.target = [r.origin]) :
    b.deliverReply links r = b.send links r.origin r.packet := by
  simp [deliverReply, alone, sendAll, andThen]

/-- A request is passed on, or answered in the machine's place. -/
theorem handle_ask {e : Event} {r : Request} (asks : b.ask? e = some r) :
    b.handle links machineOpen e =
      if machineOpen then (b, [.request r]) else b.deliverReply links (unavailable r) := by
  cases e with
  | accepted d => cases asks
  | closed d => cases asks
  | packet d p =>
    obtain ⟨connected, found, asks⟩ := Option.bind_eq_some_iff.1 asks
    split at asks
    · next t checked type =>
      cases asks
      simp only [handle, handlePacket, found, checked, act, type]
      rfl
    · next target checked type =>
      cases asks
      rw [unavailable, deliverReply_alone rfl]
      simp only [handle, handlePacket, found, checked, act, type]
      rfl
    · cases asks

/-- An execute that was checked names its target. -/
theorem check_execute {connected : Bool} {target : Option Target} (type : p.type = .execute)
    (checked : check connected p = .ok target) : ∃ t, target = some t := by
  have apart : ¬ (PacketType.execute = .connect) := by decide
  simp only [check, type, if_neg apart, bind, Except.bind] at checked
  split at checked
  · cases checked
  · split at checked
    · cases checked
    · split at checked
      · cases checked
      · next t _ =>
        cases checked
        exact ⟨t, rfl⟩

/-- A client that breaks the protocol is hung up on. -/
theorem hangUp_of_refused (known : Table.has b.clients c) (v : Violation) :
    .hangUp c ∈ (b.refuse links c p v).2 := by
  by_cases kept : .hangUp c ∈ (b.send links c (.respondFault p.tx (.violation v))).2
  · exact List.mem_append_left _ kept
  · have stays := (send_stays kept) known
    exact List.mem_append_right _ (hangUp_of_known stays)

/-- What a client asks that stays is asked of the machine. -/
theorem ask_of_kept (known : Table.has b.clients c)
    (kept : .hangUp c ∉ (b.handle links machineOpen (.packet c p)).2) :
    (p.type = .execute → ∃ t, b.ask? (.packet c p) = some (.execute c t p)) ∧
      (p.type = .cancel → b.ask? (.packet c p) = some (.cancel c p.tx)) := by
  obtain ⟨connected, found⟩ := Option.isSome_iff_exists.1 known
  cases checked : check connected p with
  | error v =>
    simp only [handle, handlePacket, found, checked] at kept
    exact absurd (hangUp_of_refused known v) kept
  | ok target =>
    refine ⟨fun type => ?_, fun type => ?_⟩
    · obtain ⟨t, rfl⟩ := check_execute type checked
      exact ⟨t, by simp [ask?, found, checked, type]⟩
    · simp [ask?, found, checked, type]

/-- A client that stays and asks nothing sent neither an execute nor a cancel. -/
theorem types_of_unasked (known : Table.has b.clients c) (asks : b.ask? (.packet c p) = none)
    (kept : .hangUp c ∉ (b.handle links machineOpen (.packet c p)).2) :
    p.type ≠ .execute ∧ p.type ≠ .cancel := by
  obtain ⟨execute, cancel⟩ := ask_of_kept known kept
  refine ⟨fun type => ?_, fun type => ?_⟩
  · obtain ⟨t, asked⟩ := execute type
    simp [asked] at asks
  · simp [cancel type] at asks

theorem put_stays (d : ClientId) (connected : Bool) :
    Stays c b { b with clients := Table.put b.clients d connected } := by
  refine .of_holds (fun known => ?_) .inl
  simp only [Table.has, Table.find?_put]
  split
  · rfl
  · exact known

/-! ## What an event comes to -/

/-- Something is noted down about a client that is known. -/
structure Noted (b b' : Broker) : Prop where
  free : b'.undeliverable = b.undeliverable
  distinct : b.subscriptions.Distinct → b'.subscriptions.Distinct
  known : ∀ c, Table.has b'.clients c → Table.has b.clients c
  stays : ∀ c, Stays c b b'

theorem noted_put (known : Table.has b.clients d) (connected : Bool) :
    b.Noted { b with clients := Table.put b.clients d connected } := by
  refine ⟨rfl, id, fun c there => ?_, fun _ => put_stays d connected⟩
  simp only [Table.has, Table.find?_put] at there
  split at there
  · next same => exact same ▸ known
  · exact there

theorem noted_subscribe (t : Target) (known : Table.has b.clients d) :
    b.Noted { b with subscriptions := (b.subscriptions.subscribe t d).1 } := by
  refine ⟨rfl, fun distinct => distinct.subscribe t d, fun _ => id,
    fun c => .of_holds id fun held => ?_⟩
  rcases Subscriptions.holds_of_subscribe held with before | rfl
  · exact .inl before
  · exact .inr known

theorem noted_unsubscribe (b : Broker) (t : Target) (d : ClientId) :
    b.Noted { b with subscriptions := (b.subscriptions.unsubscribe t d).1 } :=
  ⟨rfl, fun distinct => distinct.unsubscribe t d, fun _ => id,
    fun _ => .of_holds id fun held => .inl (Subscriptions.holds_of_unsubscribe held)⟩

/-- What the broker does for a packet of a client that it knows and that asks nothing of the machine:
nothing, or it notes something down and answers, or it answers and the client leaves. The answer is
in the packet's own transaction. -/
inductive Answered (links : Links) (b : Broker) (d : ClientId) (y : String) : Outcome → Prop where
  | nothing : Answered links b d y (b, [])
  | notes {b' : Broker} {p : Packet} (noted : b.Noted b') (type : p.type = .respond) (tx : p.tx = y) :
      Answered links b d y (b'.send links d p)
  | leaves {p : Packet} (type : p.type = .respond) (tx : p.tx = y) :
      Answered links b d y (andThen (b.send links d p) (·.removeClient d))

/-- All that an event can come to, by whether there is a machine to ask. -/
inductive Handled (links : Links) (b : Broker) : Bool → Event → Outcome → Prop where
  | accepts {machineOpen : Bool} (d : ClientId) :
      Handled links b machineOpen (.accepted d)
        ({ b with clients := Table.put b.clients d false }, [])
  | closes {machineOpen : Bool} (d : ClientId) :
      Handled links b machineOpen (.closed d) (b.removeClient d)
  | ignores {machineOpen : Bool} {d : ClientId} {p : Packet}
      (stranger : Table.has b.clients d = false) :
      Handled links b machineOpen (.packet d p) (b, [])
  | asks {d : ClientId} {p : Packet} {r : Request} (known : Table.has b.clients d)
      (asks : b.ask? (.packet d p) = some r) : Handled links b true (.packet d p) (b, [.request r])
  | fails {d : ClientId} {p : Packet} {r : Request} (known : Table.has b.clients d)
      (asks : b.ask? (.packet d p) = some r) :
      Handled links b false (.packet d p) (b.deliverReply links (unavailable r))
  | answers {machineOpen : Bool} {d : ClientId} {p : Packet} {o : Outcome}
      (known : Table.has b.clients d) (asks : b.ask? (.packet d p) = none)
      (answered : Answered links b d p.tx o) : Handled links b machineOpen (.packet d p) o

theorem act_answered {target : Option Target} (known : Table.has b.clients d)
    (execute : p.type = .execute → target = none) (cancel : p.type ≠ .cancel) :
    Answered links b d p.tx (b.act links machineOpen d p target) := by
  cases type : p.type with
  | connect =>
    simp only [act, type]
    exact .notes (noted_put known true) rfl rfl
  | disconnect =>
    simp only [act, type]
    exact .leaves rfl rfl
  | subscribe =>
    cases target with
    | none =>
      simp only [act, type]
      exact .nothing
    | some t =>
      simp only [act, type]
      exact .notes (noted_subscribe t known) rfl rfl
  | unsubscribe =>
    cases target with
    | none =>
      simp only [act, type]
      exact .nothing
    | some t =>
      simp only [act, type, unsubscribe]
      split
      · exact .notes (b.noted_unsubscribe t d) rfl rfl
      · exact .notes (b.noted_unsubscribe t d) rfl rfl
  | execute =>
    rw [execute type]
    simp only [act, type]
    exact .nothing
  | cancel => exact absurd type cancel
  | respond | respondExecute =>
    simp only [act, type]
    exact .nothing

theorem handle_handled (links : Links) (b : Broker) (machineOpen : Bool) (e : Event) :
    Handled links b machineOpen e (b.handle links machineOpen e) := by
  cases e with
  | accepted d => exact .accepts d
  | closed d => exact .closes d
  | packet d p =>
    cases found : Table.find? b.clients d with
    | none =>
      simp only [handle, handlePacket, found]
      exact .ignores (by simp [Table.has, found])
    | some connected =>
      have known : Table.has b.clients d := Option.isSome_iff_exists.2 ⟨connected, found⟩
      cases asks : b.ask? (.packet d p) with
      | some r =>
        rw [handle_ask asks]
        cases machineOpen with
        | true => exact .asks known asks
        | false => exact .fails known asks
      | none =>
        refine .answers known asks ?_
        simp only [handle, handlePacket, found]
        cases checked : check connected p with
        | error v => exact .leaves rfl rfl
        | ok target =>
          apply act_answered known
          · intro type
            cases target with
            | none => rfl
            | some t => simp [ask?, found, checked, type] at asks
          · intro type
            simp [ask?, found, checked, type] at asks

/-- What the broker answers itself concerns the packet's own transaction only. -/
theorem Answered.relays {y : String} {o : Outcome} (answered : Answered links b d y o)
    (apart : ¬ (d = c ∧ y = x)) (kept : .hangUp c ∉ o.2) : Relays c x b [] o := by
  cases answered with
  | nothing => exact .nothing (.refl c b) rfl rfl rfl
  | notes noted type tx =>
    exact (send_other (tx ▸ apart) kept).of_start (noted.stays c) noted.free
  | leaves type tx =>
    exact (send_other (tx ▸ apart) (kept_first kept)).andThen
      (removeClient_relays (kept_second kept))

/-- An event that asks nothing of the machine passes nothing. -/
theorem handle_relays {e : Event} (asks : b.ask? e = none)
    (kinds : ∀ p, e = .packet c p → p.tx = x → p.type = .execute ∨ p.type = .cancel)
    (kept : .hangUp c ∉ (b.handle links machineOpen e).2) :
    Relays c x b [] (b.handle links machineOpen e) := by
  have handled := handle_handled links b machineOpen e
  have unasked (p : Packet) (packet : e = .packet c p) (known : Table.has b.clients c) :
      p.type ≠ .execute ∧ p.type ≠ .cancel := by
    subst packet
    exact types_of_unasked known asks kept
  generalize b.handle links machineOpen e = o at kept handled ⊢
  cases handled with
  | accepts d => exact .nothing (put_stays d false) rfl rfl rfl
  | closes d => exact removeClient_relays kept
  | ignores => exact .nothing (.refl c b) rfl rfl rfl
  | asks known some | fails known some =>
    rw [asks] at some
    cases some
  | @answers _ d p o known _ answered =>
    refine answered.relays ?_ kept
    rintro ⟨rfl, tx⟩
    obtain ⟨execute, cancel⟩ := unasked p rfl known
    exact (kinds p rfl tx).elim execute cancel

end Patchbay.Broker
