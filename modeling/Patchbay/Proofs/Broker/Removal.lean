import Patchbay.Exchange
import Patchbay.Proofs.Frames.Failures
import Patchbay.Proofs.Broker.Runs
import Patchbay.Proofs.Broker.Transactions

/-!
# Who loses a connection

Over wires, a client loses its connection by what it does itself, or because its own link is closed
when something is sent to it. Whatever others do and whatever the machine replies, a client whose link
is open stays: a packet that fits no frame is replaced by a failure that does.
-/

namespace Patchbay

namespace Wire

variable {w : Wire} {p : Packet}

/-- The broker can still deliver over the wire. -/
def isOpen : Wire → Bool
  | conduit c => c.forwarding
  | socket s => s.linked

theorem deliverable_of_encode (up : w.isOpen) {bytes : Bytes} (framed : Frame.encode p = .ok bytes) :
    w.deliverable p = .ok () := by
  cases w with
  | conduit c => exact if_pos up
  | socket s =>
    simp only [deliverable, Socket.deliverable, framed]
    exact if_pos up

/-- Over a wire that is not open even what fits a frame fails. -/
theorem deliverable_of_shut (shut : w.isOpen = false) {bytes : Bytes}
    (framed : Frame.encode p = .ok bytes) : w.deliverable p = .error .closed := by
  cases w with
  | conduit c => exact if_neg (by simpa [isOpen] using shut)
  | socket s =>
    simp only [deliverable, Socket.deliverable, framed]
    exact if_neg (by simpa [isOpen] using shut)

/-- Over an open wire only what fits no frame fails. -/
theorem encode_of_deliverable (up : w.isOpen) {e : TransportError}
    (failed : w.deliverable p = .error e) : ∃ v, e = .violation v ∧ Frame.encode p = .error v := by
  cases framed : Frame.encode p with
  | ok bytes =>
    rw [deliverable_of_encode up framed] at failed
    cases failed
  | error v =>
    cases w with
    | conduit c =>
      have through : (conduit c).deliverable p = .ok () := if_pos up
      rw [through] at failed
      cases failed
    | socket s =>
      simp only [deliverable, Socket.deliverable, framed] at failed
      cases failed
      exact ⟨v, rfl, rfl⟩

end Wire

/-- A packet in memory: its documents are no longer than 64 bits can tell. -/
structure Packet.Addressable (p : Packet) : Prop where
  headers : (MessagePack.encode (.map p.headers)).length < 2 ^ 64
  body : (MessagePack.encode p.body).length < 2 ^ 64

theorem Packet.Addressable.weight_lt {p : Packet} (sized : p.Addressable)
    (id : (Bytes.ofText p.tx).length ≤ 65535) : p.weight < 10 ^ 21 := by
  obtain ⟨headers, body⟩ := sized
  rw [weight]
  omega

/-! ## What targets are called -/

/-- A text in a header is shorter than the headers. -/
theorem Target.headerText_length {headers : Fields} {key text : String}
    (named : headerText headers key = .ok text) :
    (Bytes.ofText text).length ≤ (MessagePack.encode (.map headers)).length := by
  unfold headerText at named
  split at named
  · next found =>
    cases named
    obtain ⟨v, found, isText⟩ := Option.bind_eq_some_iff.1 found
    cases v with
    | string s =>
      cases isText
      have member : (key, Value.string text) ∈ headers := by
        obtain ⟨before, after, rfl, -⟩ := List.lookup_eq_some_iff.1 found
        simp
      have inside := ((MessagePack.encodeEntries_length headers).2 _ member).2
      have own := (MessagePack.encodeText_length text).1
      rw [MessagePack.encode_string] at inside
      rw [MessagePack.encode_map, List.length_append]
      omega
    | _ => cases isText
  · cases named

theorem Packet.target_length {p : Packet} {t : Target} (named : p.target = .ok t) :
    (Bytes.ofText t.text).length ≤ 2 * (MessagePack.encode (.map p.headers)).length + 20 := by
  have slash : (Bytes.ofText "/").length = 1 := by decide
  have kind (i : Instruction) : (Bytes.ofText i.name).length ≤ 18 := by cases i <;> decide
  have kind := kind t.instruction
  unfold target at named
  split at named
  · next instruction carried =>
    cases instruction with
    | callFunction | defineComponent | deleteComponent =>
      obtain ⟨name, found, done⟩ := bind_eq_ok_iff.1 named
      cases done
      have short := Target.headerText_length found
      simp only [Target.text, Target.name, Bytes.length_ofText_append]
      omega
    | callMethod =>
      obtain ⟨owner, ownerFound, named⟩ := bind_eq_ok_iff.1 named
      obtain ⟨called, calledFound, done⟩ := bind_eq_ok_iff.1 named
      cases done
      have first := Target.headerText_length ownerFound
      have second := Target.headerText_length calledFound
      simp only [Target.text, Target.name, Bytes.length_ofText_append]
      omega
  · cases named

namespace Broker

variable {c d : ClientId} {b : Broker} {p q : Packet} {v : Violation} {input : Input}
  {wires : Table ClientId Wire} {rounds before after : List Round} {round : Round}

/-! ## Links over wires -/

/-- What deliveries over the clients' wires come to; a client without one is not reached. -/
def overWires (wires : Table ClientId Wire) : Links := fun c p =>
  match Table.find? wires c with
  | some w => w.deliverable p
  | none => .error .closed

/-- These are the links of the exchange. -/
theorem links_eq {σ : Type} (x : Exchange σ) : x.links = overWires x.wires := rfl

/-- A client has a wire that is open. -/
def Open (wires : Table ClientId Wire) (c : ClientId) : Prop :=
  ∃ w, Table.find? wires c = some w ∧ w.isOpen

/-- The failure in place of a packet that fits no frame fits one. -/
theorem encode_replacement (id : (Bytes.ofText p.tx).length ≤ 65535) (small : p.weight < 10 ^ 21)
    (refused : Frame.encode p = .error v) : ∃ bytes, Frame.encode (replacement p v) = .ok bytes := by
  have text : (Bytes.ofText (Fault.violation v).message).length ≤ 4 * 21 + 71 :=
    (Frame.tooLong_of_encode refused).message_length (by decide) small
  have bound : Frame.limit = 16777216 := rfl
  unfold replacement
  split
  · have light := Packet.outputFault_weight p.tx (p.sequence.getD 0) (.violation v)
    exact Frame.encode_of_weight id (by omega)
  · have light := Packet.respondFault_weight p.tx (.violation v)
    exact Frame.encode_of_weight id (by omega)

/-- Over an open wire a packet of a short id is delivered, or the failure in its place. -/
theorem not_open_of_unreached (unreached : Unreached (overWires wires) c q)
    (id : (Bytes.ofText q.tx).length ≤ 65535) (small : q.weight < 10 ^ 21) : ¬ Open wires c := by
  rintro ⟨w, found, up⟩
  have same (p : Packet) : overWires wires c p = w.deliverable p := by simp only [overWires, found]
  rcases unreached with ⟨e, failed, other⟩ | ⟨v, e, large, failed⟩
  · rw [same] at failed
    obtain ⟨v, rfl, -⟩ := Wire.encode_of_deliverable up failed
    exact other v rfl
  · rw [same] at large failed
    obtain ⟨_, report, refused⟩ := Wire.encode_of_deliverable up large
    cases report
    obtain ⟨bytes, framed⟩ := encode_replacement id small refused
    rw [Wire.deliverable_of_encode up framed] at failed
    cases failed

/-! ## What is sent -/

/-- The packet that is taken. -/
def Input.packet? : Input → Option Packet
  | .event (.packet _ p) => some p
  | .reply r => some r.packet
  | _ => none

theorem respondOk_light {tx : String} (id : (Bytes.ofText tx).length ≤ 65535) :
    (Bytes.ofText (Packet.respondOk tx).tx).length ≤ 65535 ∧
      (Packet.respondOk tx).weight < 10 ^ 21 := by
  have headers : (MessagePack.encode (.map [])).length = 1 := rfl
  have body : (MessagePack.encode (.map [("status", .bool true)])).length = 9 := rfl
  refine ⟨id, ?_⟩
  simp only [Packet.weight, Packet.respondOk, Packet.bare, headers, body]
  omega

/-- What the broker sends for packets of short ids has a short id, and a length of few digits. -/
theorem SentTo.light (sent : SentTo b c input q)
    (ids : ∀ p, input.packet? = some p → (Bytes.ofText p.tx).length ≤ 65535)
    (sizes : ∀ p, input.packet? = some p → p.Addressable) :
    (Bytes.ofText q.tx).length ≤ 65535 ∧ q.weight < 10 ^ 21 := by
  cases sent with
  | @reply r among =>
    have id := ids r.packet rfl
    exact ⟨id, (sizes r.packet rfl).weight_lt id⟩
  | ok p => exact respondOk_light (ids p rfl)
  | @unsubscribe p q t target answer =>
    have id := ids p rfl
    cases answer with
    | ok => exact respondOk_light id
    | absent =>
      have headers := (sizes p rfl).headers
      have target := Packet.target_length target
      have text : (Fault.notFound "subscription" t.text).message =
          "No such subscription: " ++ t.text := rfl
      have front : (Bytes.ofText "No such subscription: ").length = 22 := by decide
      have weight := Packet.respondFault_weight p.tx (.notFound "subscription" t.text)
      rw [text, Bytes.length_ofText_append, front] at weight
      exact ⟨id, by omega⟩
  | @unavailable d p r asks among =>
    have id := ids p rfl
    have text : (Bytes.ofText Fault.machineGone.message).length = 14 := by decide
    cases r with
    | execute e t q =>
      obtain ⟨rfl, rfl, -, -⟩ := asks
      have weight := Packet.outputFault_weight q.tx 0 .machineGone
      rw [text] at weight
      exact ⟨id, Nat.lt_of_le_of_lt weight (by omega)⟩
    | cancel e tx =>
      obtain ⟨rfl, -, rfl⟩ := asks
      have weight := Packet.respondFault_weight p.tx .machineGone
      rw [text] at weight
      exact ⟨id, Nat.lt_of_le_of_lt weight (by omega)⟩

/-! ## Main result -/

/-- Why the broker removes a client: for what the client did, or because its link is closed when
something is sent to it. -/
inductive Removes (past : Broker) (wires : Table ClientId Wire) (c : ClientId) (input : Input) :
    Prop where
  | own {connected : Bool} (found : Table.find? past.clients c = some connected)
      (leaves : Leaves connected c input)
  | closed {q : Packet} (sent : SentTo past c input q) (shut : ¬ Open wires c)

/-- Over wires only a reason removes a client, as long as ids and sizes are in bounds. -/
theorem Between.removes {past next : Broker} (between : Between rounds past round next)
    (links : round.links = overWires wires) (known : Table.has past.clients c)
    (gone : ¬ Table.has next.clients c)
    (ids : ∀ p, round.input.packet? = some p → (Bytes.ofText p.tx).length ≤ 65535)
    (sizes : ∀ p, round.input.packet? = some p → p.Addressable) :
    Removes past wires c round.input := by
  have hung : .hangUp c ∈ (past.take round.links round.machineOpen round.input).2 := by
    by_contra kept
    rw [between.next_eq] at gone
    exact gone ((take_known _ _ _ _ kept).2 (.inl known))
  rw [links] at hung
  rcases (take_took ..).hangUp_cause hung with ⟨connected, found, leaves⟩ | ⟨q, sent, unreached⟩
  · exact .own found leaves
  · obtain ⟨id, small⟩ := sent.light ids sizes
    exact .closed sent (not_open_of_unreached unreached id small)

/-- What a run of the broker over wires says about the clients that it knows no more. -/
structure OwnDoing (rounds : List Round) (b : Broker) : Prop where
  /-- From one state of the run to the next a client is removed for a reason only. -/
  removed : ∀ past round next wires c, Between rounds past round next →
    round.links = overWires wires → Table.has past.clients c → ¬ Table.has next.clients c →
    Removes past wires c round.input
  /-- Nothing that others do and no reply removes a client whose link is open. -/
  stays : ∀ past round next wires c, Between rounds past round next →
    round.links = overWires wires → Table.has past.clients c → Open wires c →
    (∀ p, round.input ≠ .event (.packet c p)) → round.input ≠ .event (.closed c) →
    Table.has next.clients c
  /-- A client that leaves or breaks the protocol is removed, whatever its link is. -/
  left : ∀ past round next connected c, Between rounds past round next →
    Table.find? past.clients c = some connected → Leaves connected c round.input →
    ¬ Table.has next.clients c
  /-- A client that was accepted is known at the end, or there was a reason before. -/
  accounted : ∀ c, (∃ round ∈ rounds, round.input = .event (.accepted c)) →
    Table.has b.clients c ∨ ∃ past round next wires, Between rounds past round next ∧
      Table.has past.clients c ∧ round.links = overWires wires ∧ Removes past wires c round.input
  /-- The failure in place of a packet that fits no frame fits one. -/
  replaced : ∀ p v, (Bytes.ofText p.tx).length ≤ 65535 → p.Addressable →
    Frame.encode p = .error v → ∃ bytes, Frame.encode (replacement p v) = .ok bytes
  /-- The ids of clients on sockets are short. -/
  decoded : ∀ s next signals p, Socket.pump? s = some (signals, next) → .packet p ∈ signals →
    (Bytes.ofText p.tx).length ≤ 65535

/-- In every run of the broker over wires in which two bytes tell how long an id is. The documents of
the packets were in memory, so that 64 bits tell how long they are. -/
theorem removed_by_own_doing (run : Run rounds b)
    (wired : ∀ round ∈ rounds, ∃ wires, round.links = overWires wires)
    (ids : ∀ round ∈ rounds, ∀ p, round.input.packet? = some p →
      (Bytes.ofText p.tx).length ≤ 65535)
    (sizes : ∀ round ∈ rounds, ∀ p, round.input.packet? = some p → p.Addressable) :
    OwnDoing rounds b := by
  constructor
  case removed =>
    intro past round next wires c between links known gone
    have member := between.member
    exact between.removes links known gone (ids round member) (sizes round member)
  case stays =>
    intro past round next wires c between links known up foreign unclosed
    have member := between.member
    by_contra gone
    cases between.removes links known gone (ids round member) (sizes round member) with
    | own found leaves =>
      rcases leaves.own with closed | ⟨p, packet⟩
      · exact unclosed closed
      · exact foreign p packet
    | closed sent shut => exact shut up
  case left =>
    intro past round next connected c between found leaves
    have hung := hangUp_of_leaves round.links round.machineOpen found leaves
    rw [between.next_eq, Table.has, (take_gone _ _ _ _ hung).2]
    exact Bool.false_ne_true
  case accounted =>
    intro c accepted
    by_cases known : Table.has b.clients c
    · exact .inl known
    · have lost : ∃ round ∈ rounds, .hangUp c ∈ round.effects := by
        by_contra kept
        exact known (run.known_iff.2
          ⟨accepted, fun round member hung => kept ⟨round, member, hung⟩⟩)
      obtain ⟨round, member, hung⟩ := lost
      obtain ⟨wires, links⟩ := wired round member
      obtain ⟨past, between, effects⟩ := run.between member
      rw [effects] at hung
      have there : Table.has past.clients c := by
        rcases (take_gone _ _ _ _ hung).1 with there | accepts
        · exact there
        · rw [accepts] at hung
          cases hung
      have gone := (take_gone _ _ _ _ hung).2
      exact .inr ⟨past, round, _, wires, between, there, links,
        between.removes links there (by simp [Table.has, gone]) (ids round member)
          (sizes round member)⟩
  case replaced =>
    intro p v id sized refused
    exact encode_replacement id (sized.weight_lt id) refused
  case decoded =>
    intro s next signals p pumped member
    exact Socket.pump?_id pumped member

/-- A client on an open socket, and one that does not read any more. -/
def parted : Table ClientId Wire :=
  [(0, .socket .start), (1, .conduit { Conduit.start 1 with forwarding := false })]

/-- Both clients are known. -/
def both : Broker := ⟨[(0, false), (1, false)], .empty, []⟩

/-- Both clients are accepted; the one is sent an output that is too large, the other an answer. -/
def partedRounds : List Round :=
  [⟨overWires parted, true, .event (.accepted 0), []⟩,
    ⟨overWires parted, true, .event (.accepted 1), []⟩,
    ⟨overWires parted, true, .reply ⟨0, 0, none, Traffic.flood⟩, [.deliver 0 Traffic.failure]⟩,
    ⟨overWires parted, true, .reply ⟨0, 1, none, .respondOk "u"⟩, [.hangUp 1]⟩]

theorem take_flood :
    both.take (overWires parted) true (.reply ⟨0, 0, none, Traffic.flood⟩) =
      ({ both with undeliverable := [(0, "t")] }, [.deliver 0 Traffic.failure]) := by
  have socket : overWires parted 0 Traffic.flood = Socket.start.deliverable Traffic.flood := rfl
  have large : overWires parted 0 Traffic.flood =
      .error (.violation (.tooLarge "frame" 16777263 Frame.limit)) := by
    rw [socket, Socket.deliverable, Traffic.encode_flood]
  have alone : both.take (overWires parted) true (.reply ⟨0, 0, none, Traffic.flood⟩) =
      both.send (overWires parted) 0 Traffic.flood := deliverReply_alone rfl
  rw [alone, send_replaced rfl rfl large rfl]
  rfl

theorem run_parted : Run partedRounds ⟨[(0, false)], .empty, [(0, "t")]⟩ := by
  have accepted : Run _ both := (Run.start.take (overWires parted) true (.event (.accepted 0))
    (by simp)).take (overWires parted) true (.event (.accepted 1)) (by simp)
  have flooded := accepted.take (overWires parted) true (.reply ⟨0, 0, none, Traffic.flood⟩)
    (by simp)
  rw [take_flood] at flooded
  exact flooded.take (overWires parted) true (.reply ⟨0, 1, none, .respondOk "u"⟩) (by simp)

theorem flood_addressable : Traffic.flood.Addressable := by
  have text : (Bytes.ofText Traffic.long).length = 16777216 :=
    Bytes.length_ofText_replicate Frame.limit 'x'
  have body : (MessagePack.encode Traffic.flood.body).length =
      (Bytes.ofText Traffic.long).length + 21 :=
    MessagePack.encode_output_length (by rw [text]; decide)
  exact ⟨by decide, by rw [body, text]; decide⟩

/-- A packet that is too large costs no connection, a link that is closed does. -/
theorem removed_by_own_doing_parted :
    Run partedRounds ⟨[(0, false)], .empty, [(0, "t")]⟩ ∧ Open parted 0 ∧ ¬ Open parted 1 ∧
      OwnDoing partedRounds ⟨[(0, false)], .empty, [(0, "t")]⟩ := by
  have shut : ¬ Open parted 1 := by
    rintro ⟨w, found, up⟩
    cases found
    cases up
  have wired : ∀ round ∈ partedRounds, ∃ wires, round.links = overWires wires := by
    simp only [partedRounds, List.forall_mem_cons]
    exact ⟨⟨parted, rfl⟩, ⟨parted, rfl⟩, ⟨parted, rfl⟩, ⟨parted, rfl⟩, by simp⟩
  have packets : ∀ round ∈ partedRounds, ∀ p, round.input.packet? = some p →
      p = Traffic.flood ∨ p = .respondOk "u" := by
    simp [partedRounds, Input.packet?]
  refine ⟨run_parted, ⟨_, rfl, rfl⟩, shut, removed_by_own_doing run_parted wired ?_ ?_⟩
  · intro round member p taken
    rcases packets round member p taken with rfl | rfl
    · decide
    · decide
  · intro round member p taken
    rcases packets round member p taken with rfl | rfl
    · exact flood_addressable
    · exact ⟨by decide, by decide⟩

end Broker

end Patchbay
