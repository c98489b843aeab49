import Patchbay.Proofs.Broker.Removal
import Patchbay.Proofs.Broker.Viewpoints

/-!
# What a packet comes to

A packet of a client is answered once, or handed to the machine once. A client that gets neither an
answer nor a reply waits until its time is over, and one that gets two answers takes the second for the
answer to something else.

The answer is taken to fit a frame, and nothing of its transaction to be withheld: what becomes of the
others is said where replies are replaced and withheld.
-/

namespace Patchbay.Broker

variable {c d : ClientId} {b b' b'' : Broker} {p q : Packet} {machineOpen connected : Bool}
  {wires : Table ClientId Wire} {target : Option Target} {t : Target} {ds : List ClientId}
  {gone more : ClientId → Bool}

instance (wires : Table ClientId Wire) (c : ClientId) : Decidable (Open wires c) :=
  decidable_of_iff ((Table.find? wires c).any Wire.isOpen = true) (Option.any_eq_true ..)

/-! ## Without some clients -/

/-- A broker without some of its clients, and otherwise as it was. -/
structure Without (b : Broker) (gone : ClientId → Bool) (b' : Broker) : Prop where
  clients : ∀ d, Table.find? b'.clients d = if gone d then none else Table.find? b.clients d
  subscribers : ∀ t, b'.subscriptions.subscribers t =
    (b.subscriptions.subscribers t).filter fun d => !gone d
  undeliverable : ∀ key, key ∈ b'.undeliverable ↔ key ∈ b.undeliverable ∧ gone key.1 = false

namespace Without

theorem refl (b : Broker) : Without b (fun _ => false) b := ⟨by simp, by simp, by simp⟩

theorem trans (first : Without b gone b') (second : Without b' more b'') :
    Without b (fun d => gone d || more d) b'' where
  clients d := by
    rw [second.clients, first.clients]
    cases gone d <;> cases more d <;> rfl
  subscribers t := by
    rw [second.subscribers, first.subscribers, List.filter_filter]
    simp only [Bool.not_or, Bool.and_comm]
  undeliverable key := by
    rw [second.undeliverable, first.undeliverable, and_assoc, Bool.or_eq_false_iff]

theorem congr (without : Without b gone b') (same : ∀ d, gone d = more d) : Without b more b' :=
  funext same ▸ without

end Without

theorem Logged.without_removeClient (h : b.Logged) (known : Table.has b.clients c) :
    Without b (fun d => d = c) (b.removeClient c).1 := by
  rw [Broker.removeClient, if_pos known]
  refine ⟨fun d => ?_, fun t => ?_, fun key => ?_⟩
  · rw [Table.find?_erase]
    simp only [decide_eq_true_eq, @eq_comm _ d c]
  · rw [h.keyed.subscribers_removeClient]
    simp [Subscriptions.Action.onto]
  · simp

/-! ## Sending what fits -/

theorem overWires_of_open (up : Open wires d) (fits : ¬ TooLarge q) : overWires wires d q = .ok () := by
  obtain ⟨w, found, up⟩ := up
  obtain ⟨bytes, framed⟩ := encode_of_not_tooLarge fits
  simp only [overWires, found]
  exact Wire.deliverable_of_encode up framed

theorem overWires_of_shut (shut : ¬ Open wires d) (fits : ¬ TooLarge q) :
    overWires wires d q = .error .closed := by
  cases found : Table.find? wires d with
  | none => simp only [overWires, found]
  | some w =>
    obtain ⟨bytes, framed⟩ := encode_of_not_tooLarge fits
    have shut : w.isOpen = false := by
      by_contra up
      exact shut ⟨w, found, by simpa using up⟩
    simp only [overWires, found]
    exact Wire.deliverable_of_shut shut framed

/-- What fits a frame is delivered over an open wire, and costs the connection over another one. -/
theorem send_overWires (known : Table.has b.clients d) (free : (d, q.tx) ∉ b.undeliverable)
    (fits : ¬ TooLarge q) :
    b.send (overWires wires) d q =
      if Open wires d then (b, [.deliver d q]) else b.removeClient d := by
  by_cases up : Open wires d
  · simp [send, free, known, overWires_of_open up fits, up]
  · simp [send, free, known, overWires_of_shut up fits, up]

/-- A client that a packet is due to is tried with it and, over a wire that is not open, removed. -/
theorem Logged.sendAll_overWires (h : b.Logged) (wires : Table ClientId Wire) (once : ds.Nodup)
    (known : ∀ d ∈ ds, Table.has b.clients d) (free : ∀ d ∈ ds, (d, q.tx) ∉ b.undeliverable)
    (fits : ¬ TooLarge q) :
    (Broker.sendAll (overWires wires) q ds b).2 =
        ds.map (fun d => if Open wires d then .deliver d q else .hangUp d) ∧
      Without b (fun d => d ∈ ds ∧ ¬ Open wires d) (Broker.sendAll (overWires wires) q ds b).1 := by
  induction ds generalizing b with
  | nil => exact ⟨rfl, (Without.refl b).congr (by simp)⟩
  | cons d rest ih =>
    obtain ⟨absent, once⟩ := List.nodup_cons.1 once
    obtain ⟨here, knownRest⟩ := List.forall_mem_cons.1 known
    obtain ⟨freeHere, freeRest⟩ := List.forall_mem_cons.1 free
    rw [Broker.sendAll, send_overWires here freeHere fits]
    by_cases up : Open wires d
    · obtain ⟨effects, without⟩ := ih h once knownRest freeRest
      rw [if_pos up]
      refine ⟨by simp [andThen, effects, up], without.congr fun e => ?_⟩
      by_cases same : e = d
      · simp [same, absent, up]
      · simp [same]
    · have removed := h.without_removeClient here
      rw [if_neg up]
      have knownThen : ∀ e ∈ rest, Table.has (b.removeClient d).1.clients e := by
        intro e member
        have apart : e ≠ d := fun same => absent (same ▸ member)
        simpa [Table.has, removed.clients, apart] using knownRest e member
      have freeThen : ∀ e ∈ rest, (e, q.tx) ∉ (b.removeClient d).1.undeliverable :=
        fun e member there => freeRest e member ((removed.undeliverable _).1 there).1
      obtain ⟨effects, without⟩ := ih (h.removeClient d) once knownThen freeThen
      refine ⟨?_, (removed.trans without).congr fun e => ?_⟩
      · simp only [andThen, effects, List.map_cons, if_neg up]
        simp [Broker.removeClient, here]
      · by_cases same : e = d
        · simp [same, absent, up]
        · simp [same]

/-- A reply to a client whose wire is open goes to it and to the other subscribers of a target. -/
theorem Run.deliverReply_overWires {rounds : List Round} (run : Run rounds b)
    (known : Table.has b.clients c) (up : Open wires c) (free : ∀ d, (d, q.tx) ∉ b.undeliverable)
    (fits : ¬ TooLarge q) (t : Target) :
    let others := (b.subscriptions.subscribers t).filter (· ≠ c)
    others.Nodup ∧
      (b.deliverReply (overWires wires) ⟨0, c, some t, q⟩).2 = .deliver c q ::
        others.map (fun d => if Open wires d then .deliver d q else .hangUp d) ∧
      Without b (fun d => d ∈ others ∧ ¬ Open wires d)
        (b.deliverReply (overWires wires) ⟨0, c, some t, q⟩).1 := by
  have coherent := run.coherent
  have once : (b.subscriptions.recipients c (some t)).Nodup := coherent.once.recipients c (some t)
  have there : ∀ d ∈ b.subscriptions.recipients c (some t), Table.has b.clients d := by
    intro d member
    rcases Subscriptions.holds_of_mem_recipients member with rfl | held
    · exact known
    · simp [Table.has, coherent.enrolled d held]
  obtain ⟨effects, without⟩ :=
    run.logged.sendAll_overWires wires once there (fun d _ => free d) fits
  refine ⟨(List.nodup_cons.1 once).2, ?_, without.congr fun d => ?_⟩
  · rw [deliverReply, effects, Subscriptions.recipients, List.map_cons, if_pos up]
  · by_cases same : d = c
    · simp [same, up]
    · simp [Subscriptions.recipients, same]

/-! ## Main result -/

/-- A packet of a client that is known and keeps the protocol, and the target that it names. -/
inductive Admitted (b : Broker) (c : ClientId) (p : Packet) (target : Option Target) : Prop where
  | mk {connected : Bool} (found : Table.find? b.clients c = some connected)
      (valid : p.validate = .ok ()) (checked : Checked p connected target)

/-- What a packet of a client comes to, by what is wrong with it and by its type. -/
structure Settled (wires : Table ClientId Wire) (b : Broker) (machineOpen : Bool) (c : ClientId)
    (p : Packet) (o : Outcome) : Prop where
  /-- From an id that is not known nothing is heard. -/
  unknown : Table.find? b.clients c = none → o = (b, [])
  /-- Whoever breaks the protocol is told the violation and removed, with all its subscriptions. -/
  refused : ∀ connected, Table.find? b.clients c = some connected → Offends connected p →
    ∃ v, check connected p = .error v ∧ (¬ TooLarge (.respondFault p.tx (.violation v)) →
      o.2 = [.deliver c (.respondFault p.tx (.violation v)), .hangUp c] ∧
        Without b (fun d => d = c) o.1)
  connect : Admitted b c p none → p.type = .connect → ¬ TooLarge (.respondOk p.tx) →
    o = ({ b with clients := Table.put b.clients c true }, [.deliver c (.respondOk p.tx)])
  disconnect : Admitted b c p none → p.type = .disconnect → ¬ TooLarge (.respondOk p.tx) →
    o.2 = [.deliver c (.respondOk p.tx), .hangUp c] ∧ Without b (fun d => d = c) o.1
  subscribe : ∀ t, Admitted b c p (some t) → p.type = .subscribe → ¬ TooLarge (.respondOk p.tx) →
    o = ({ b with subscriptions := (b.subscriptions.subscribe t c).1 },
      [.deliver c (.respondOk p.tx)])
  unsubscribe : ∀ t, Admitted b c p (some t) → p.type = .unsubscribe →
    c ∈ b.subscriptions.subscribers t → ¬ TooLarge (.respondOk p.tx) →
    o = ({ b with subscriptions := (b.subscriptions.unsubscribe t c).1 },
      [.deliver c (.respondOk p.tx)])
  /-- Only what was subscribed to is unsubscribed from. -/
  unsubscribed : ∀ t, Admitted b c p (some t) → p.type = .unsubscribe →
    c ∉ b.subscriptions.subscribers t →
    ¬ TooLarge (.respondFault p.tx (.notFound "subscription" t.text)) →
    o = (b, [.deliver c (.respondFault p.tx (.notFound "subscription" t.text))])
  execute : ∀ t, Admitted b c p (some t) → p.type = .execute → machineOpen = true →
    o = (b, [.request (.execute c t p)])
  cancel : Admitted b c p none → p.type = .cancel → machineOpen = true →
    o = (b, [.request (.cancel c p.tx)])
  /-- Without a machine an execute fails for all who would get its replies, once for each of them;
  those that are not reached are removed. -/
  executeGone : ∀ t, Admitted b c p (some t) → p.type = .execute → machineOpen = false →
    ¬ TooLarge (.outputFault p.tx 0 .machineGone) →
    let others := (b.subscriptions.subscribers t).filter (· ≠ c)
    others.Nodup ∧
      o.2 = .deliver c (.outputFault p.tx 0 .machineGone) :: others.map (fun d =>
        if Open wires d then .deliver d (.outputFault p.tx 0 .machineGone) else .hangUp d) ∧
      Without b (fun d => d ∈ others ∧ ¬ Open wires d) o.1
  cancelGone : Admitted b c p none → p.type = .cancel → machineOpen = false →
    ¬ TooLarge (.respondFault p.tx .machineGone) →
    o = (b, [.deliver c (.respondFault p.tx .machineGone)])
  /-- There is no other case. -/
  cases : Table.find? b.clients c = none ∨
    (∃ connected, Table.find? b.clients c = some connected ∧ Offends connected p) ∨
    (Admitted b c p none ∧ (p.type = .connect ∨ p.type = .disconnect ∨ p.type = .cancel)) ∨
    ∃ t, Admitted b c p (some t) ∧
      (p.type = .subscribe ∨ p.type = .unsubscribe ∨ p.type = .execute)

theorem Admitted.has (admitted : Admitted b c p target) : Table.has b.clients c := by
  obtain ⟨found, -, -⟩ := admitted
  exact Option.isSome_iff_exists.2 ⟨_, found⟩

/-- What is admitted is acted on. -/
theorem Admitted.take_eq (admitted : Admitted b c p target) (links : Links) :
    b.take links machineOpen (.event (.packet c p)) = b.act links machineOpen c p target := by
  obtain ⟨found, valid, checked⟩ := admitted
  simp only [take, handle, handlePacket, found, check_of_checked valid checked]

theorem admitted_cases (b : Broker) (c : ClientId) (p : Packet) :
    Table.find? b.clients c = none ∨
      (∃ connected, Table.find? b.clients c = some connected ∧ Offends connected p) ∨
      (Admitted b c p none ∧ (p.type = .connect ∨ p.type = .disconnect ∨ p.type = .cancel)) ∨
      ∃ t, Admitted b c p (some t) ∧
        (p.type = .subscribe ∨ p.type = .unsubscribe ∨ p.type = .execute) := by
  cases found : Table.find? b.clients c with
  | none => exact .inl rfl
  | some connected =>
    right
    rcases checked_or_offends connected p with ⟨valid, target, checked⟩ | offends
    · right
      cases checked with
      | connect type version =>
        exact .inl ⟨⟨found, valid, .connect type version⟩, .inl type⟩
      | plain type => exact .inl ⟨⟨found, valid, .plain type⟩, .inr type⟩
      | @targeted t type target =>
        refine .inr ⟨t, ⟨found, valid, .targeted type target⟩, ?_⟩
        cases kind : p.type <;> simp [kind, PacketType.carriesInstruction] at type ⊢
    · exact .inl ⟨connected, rfl, offends⟩

/-- In every state that the broker comes into, a packet of any client comes to one thing, if the
client's own link is open and nothing of the transaction is withheld. -/
theorem packet_settled {rounds : List Round} (run : Run rounds b) (up : Open wires c)
    (free : ∀ d, (d, p.tx) ∉ b.undeliverable) (machineOpen : Bool) :
    Settled wires b machineOpen c p
      (b.take (overWires wires) machineOpen (.event (.packet c p))) := by
  have logged := run.logged
  -- an answer of the same transaction, from any state with the same clients
  have answer {b' : Broker} {q : Packet} (known : Table.has b'.clients c)
      (same : b'.undeliverable = b.undeliverable) (tx : q.tx = p.tx) (fits : ¬ TooLarge q) :
      b'.send (overWires wires) c q = (b', [.deliver c q]) := by
    rw [send_overWires known (same ▸ tx ▸ free c) fits, if_pos up]
  -- an answer that is the last
  have parting {q : Packet} (known : Table.has b.clients c) (tx : q.tx = p.tx) (fits : ¬ TooLarge q) :
      (andThen (b.send (overWires wires) c q) (·.removeClient c)).2 = [.deliver c q, .hangUp c] ∧
        Without b (fun d => d = c)
          (andThen (b.send (overWires wires) c q) (·.removeClient c)).1 := by
    rw [answer known rfl tx fits]
    exact ⟨by simp [andThen, removeClient, known], logged.without_removeClient known⟩
  constructor
  case unknown =>
    intro stranger
    simp only [take, handle, handlePacket, stranger]
  case refused =>
    intro connected found offends
    obtain ⟨v, refused⟩ := check_error_iff.2 offends
    have known : Table.has b.clients c := Option.isSome_iff_exists.2 ⟨_, found⟩
    refine ⟨v, refused, fun fits => ?_⟩
    simp only [take, handle, handlePacket, found, refused, refuse]
    exact parting known rfl fits
  case connect =>
    intro admitted type fits
    rw [admitted.take_eq]
    simp only [act, type]
    exact answer (by simp [Table.has, Table.find?_put]) rfl rfl fits
  case disconnect =>
    intro admitted type fits
    rw [admitted.take_eq]
    simp only [act, type]
    exact parting admitted.has rfl fits
  case subscribe =>
    intro t admitted type fits
    rw [admitted.take_eq]
    simp only [act, type]
    exact answer admitted.has rfl rfl fits
  case unsubscribe =>
    intro t admitted type member fits
    rw [admitted.take_eq]
    simp only [act, type, unsubscribe, (Subscriptions.unsubscribe_snd _ t c).2 member, if_true]
    exact answer admitted.has rfl rfl fits
  case unsubscribed =>
    intro t admitted type absent fits
    have same : b.subscriptions.unsubscribe t c = (b.subscriptions, false) := if_neg absent
    rw [admitted.take_eq]
    simp only [act, type, unsubscribe, same, Bool.false_eq_true, if_false]
    exact answer admitted.has rfl rfl fits
  case execute =>
    intro t admitted type opened
    rw [admitted.take_eq]
    simp only [act, type]
    exact if_pos opened
  case cancel =>
    intro admitted type opened
    rw [admitted.take_eq]
    simp only [act, type]
    exact if_pos opened
  case executeGone =>
    intro t admitted type closed fits
    rw [admitted.take_eq]
    simp only [act, type, execute, closed, Bool.false_eq_true, if_false]
    exact run.deliverReply_overWires (q := .outputFault p.tx 0 .machineGone) admitted.has up free fits
      t
  case cancelGone =>
    intro admitted type closed fits
    rw [admitted.take_eq]
    simp only [act, type, cancel, closed, Bool.false_eq_true, if_false]
    exact answer admitted.has rfl rfl fits
  case cases => exact admitted_cases b c p

/-- Two clients subscribe to a function. -/
def audience : List (Links × Bool × Input) :=
  [0, 1].flatMap fun c =>
    [(fun _ _ => .ok (), true, .event (.accepted c)),
      (fun _ _ => .ok (), true, .event (.packet c (.connect "a"))),
      (fun _ _ => .ok (), true, .event (.packet c (.subscribe "b" (.function "f"))))]

/-- The one on the open wire executes it when the machine is gone. -/
theorem packet_settled_audience :
    ∃ rounds b, Run rounds b ∧ Open parted 0 ∧ (∀ d, (d, "t") ∉ b.undeliverable) ∧
      (b.take (overWires parted) false
          (.event (.packet 0 (.callFunction "t" "f" .null)))).2 =
        [.deliver 0 (.outputFault "t" 0 .machineGone), .hangUp 1] ∧
      Settled parted b false 0 (.callFunction "t" "f" .null)
        (b.take (overWires parted) false (.event (.packet 0 (.callFunction "t" "f" .null)))) := by
  have run := Run.start.takeAll audience (by decide)
  have up : Open parted 0 := ⟨_, rfl, rfl⟩
  have none : (Broker.init.takeAll audience).2.undeliverable = [] := rfl
  have free (d : ClientId) : (d, "t") ∉ (Broker.init.takeAll audience).2.undeliverable := by
    simp [none]
  exact ⟨_, _, run, up, free, rfl, packet_settled run up free false⟩

end Patchbay.Broker
