import Patchbay.Proofs.Broker.Coherence
import Patchbay.Proofs.Broker.Traffic

/-!
# The handshake

Who stands with the broker is told by the history alone: a client that was accepted, sent a valid
connect, and has lost its connection by nothing since. Executes and cancels of such clients, and of no
others, are passed on, in order and as they are. A packet that breaks the protocol costs its client
everything, and the failed answer to it is the last that the client is sent.
-/

namespace Patchbay.Broker

variable {c d : ClientId} {b : Broker} {links : Links} {machineOpen connected : Bool} {p q : Packet}
  {r s : Request} {input : Input} {o : Outcome} {rounds before after : List Round} {round : Round}

/-! ## Standing -/

/-- A client was greeted, and since then it has neither left, nor broken the protocol, nor been closed
or hung up on. -/
def Standing (rounds : List Round) (c : ClientId) : Prop :=
  ∃ past greeting since p, rounds = past ++ greeting :: since ∧ Present past c ∧
    greeting.input = .event (.packet c p) ∧ ValidConnect p ∧
    ∀ round ∈ greeting :: since, ¬ Leaves true c round.input ∧ .hangUp c ∉ round.effects

theorem standing_append_one :
    Standing (rounds ++ [round]) c ↔
      (Standing rounds c ∨ Present rounds c ∧ ∃ p, round.input = .event (.packet c p) ∧
        ValidConnect p) ∧ ¬ Leaves true c round.input ∧ .hangUp c ∉ round.effects := by
  constructor
  · rintro ⟨past, greeting, since, p, split, present, packet, connect, kept⟩
    rcases split_append_one split with ⟨rfl, rfl, rfl⟩ | ⟨rest, rfl, rfl⟩
    · exact ⟨.inr ⟨present, p, packet, connect⟩, kept _ List.mem_cons_self⟩
    · refine ⟨.inl ⟨past, greeting, rest, p, rfl, present, packet, connect, fun other member => ?_⟩,
        kept _ (by simp)⟩
      apply kept
      rw [← List.cons_append]
      exact List.mem_append_left _ member
  · rintro ⟨⟨past, greeting, since, p, rfl, present, packet, connect, kept⟩ |
      ⟨present, p, packet, connect⟩, stays⟩
    · refine ⟨past, greeting, since ++ [round], p, by simp, present, packet, connect,
        fun other member => ?_⟩
      rw [← List.cons_append] at member
      rcases List.mem_append.1 member with earlier | now
      · exact kept other earlier
      · rw [List.mem_singleton.1 now]
        exact stays
    · refine ⟨rounds, round, [], p, rfl, present, packet, connect, fun other member => ?_⟩
      rw [List.mem_singleton.1 member]
      exact stays

theorem Standing.present (standing : Standing rounds c) : Present rounds c := by
  obtain ⟨past, greeting, since, p, rfl, ⟨⟨round, member, accepted⟩, kept⟩, -, -, stays⟩ := standing
  refine ⟨⟨round, List.mem_append_left _ member, accepted⟩, fun other member => ?_⟩
  rcases List.mem_append.1 member with earlier | later
  · exact kept other earlier
  · exact (stays other later).2

/-- Which clients are connected once something was taken. -/
theorem take_connected (links : Links) (machineOpen : Bool) (b : Broker) (input : Input)
    (kept : .hangUp c ∉ (b.take links machineOpen input).2) :
    Table.find? (b.take links machineOpen input).1.clients c = some true ↔
      input ≠ .event (.accepted c) ∧ (Table.find? b.clients c = some true ∨
        Table.has b.clients c ∧ ∃ p, input = .event (.packet c p) ∧ ValidConnect p) := by
  obtain ⟨b', notes, drops⟩ := (take_took links machineOpen b input).drops
  rw [drops.kept c kept]
  generalize b'.clients = clients at notes
  cases notes with
  | accepts d =>
    rw [Table.find?_put]
    by_cases same : d = c <;> simp [same]
  | @greets d p known connect =>
    rw [Table.find?_put]
    by_cases same : d = c
    · subst same
      simp [known, connect]
    · simp [same]
  | nothing unaccepted ungreeted =>
    refine ⟨fun there => ⟨unaccepted c, .inl there⟩, ?_⟩
    rintro ⟨-, there | ⟨known, p, packet, connect⟩⟩
    · exact there
    · exact absurd connect (ungreeted c p packet known)

/-- A valid connect does not cost the connection. -/
theorem ValidConnect.stays (connect : ValidConnect p) :
    ¬ Leaves true c (.event (.packet c p)) := by
  intro leaves
  cases leaves with
  | disconnect type => simp [connect.type] at type
  | offence offends => exact connect.inOrder true offends

/-- The broker holds those for connected that stand. -/
theorem Run.standing_iff (run : Run rounds b) :
    Table.find? b.clients c = some true ↔ Standing rounds c := by
  induction run with
  | start =>
    refine ⟨fun found => (by cases found), ?_⟩
    rintro ⟨past, greeting, since, p, split, -⟩
    simp at split
  | @take rounds b links machineOpen input before fresh ih =>
    rw [standing_append_one]
    by_cases gone : .hangUp c ∈ (b.take links machineOpen input).2
    · simp [(take_gone links machineOpen b input gone).2, gone]
    · rw [take_connected links machineOpen b input gone, ih, before.known_iff]
      constructor
      · rintro ⟨-, standing | ⟨present, p, rfl, connect⟩⟩
        · refine ⟨.inl standing, fun leaves => ?_, gone⟩
          exact gone (hangUp_of_leaves links machineOpen (ih.2 standing) leaves)
        · exact ⟨.inr ⟨present, p, rfl, connect⟩, connect.stays, gone⟩
      · rintro ⟨stands, -, -⟩
        have present : Present rounds c := stands.elim Standing.present And.left
        refine ⟨fun accepted => ?_, stands⟩
        obtain ⟨round, member, same⟩ := present.1
        exact fresh c accepted round member same

/-! ## Requests -/

/-- The packet of a client that is taken. -/
def Input.heard? (c : ClientId) : Input → Option Packet
  | .event (.packet d p) => if d = c then some p else none
  | _ => none

/-- The packets of a client that were taken. -/
def heardFrom (c : ClientId) (rounds : List Round) : List Packet :=
  rounds.filterMap fun round => round.input.heard? c

/-- What the machine was asked for a client. -/
def requestsOf (c : ClientId) (rounds : List Round) : List Request :=
  (rounds.flatMap fun round => requests round.effects).filter fun r => r.origin = c

/-- What a client was sent. -/
def sentTo (c : ClientId) (rounds : List Round) : List Packet :=
  rounds.flatMap fun round => packetsTo c round.effects

@[simp] theorem heardFrom_append (c : ClientId) (rounds later : List Round) :
    heardFrom c (rounds ++ later) = heardFrom c rounds ++ heardFrom c later := List.filterMap_append

@[simp] theorem requestsOf_append (c : ClientId) (rounds later : List Round) :
    requestsOf c (rounds ++ later) = requestsOf c rounds ++ requestsOf c later := by
  simp [requestsOf]

theorem mem_requests {effects : List Effect} : r ∈ requests effects ↔ .request r ∈ effects := by
  simp only [requests, List.mem_filterMap]
  constructor
  · rintro ⟨e, member, asked⟩
    cases e with
    | request s =>
      cases asked
      exact member
    | deliver d p => cases asked
    | hangUp d => cases asked
  · intro member
    exact ⟨_, member, rfl⟩

theorem Asks.origin (asks : Asks c p r) : r.origin = c := by
  cases r with
  | execute d t q => exact asks.1
  | cancel d tx => exact asks.1

/-- A packet asks for one request at most. -/
theorem Asks.unique (first : Asks c p r) (second : Asks c p s) : r = s := by
  cases r with
  | execute d t q =>
    obtain ⟨rfl, rfl, type, target⟩ := first
    cases s with
    | execute e u q =>
      obtain ⟨rfl, rfl, -, same⟩ := second
      cases target.symm.trans same
      rfl
    | cancel e tx => simp [second.2.1] at type
  | cancel d tx =>
    obtain ⟨rfl, type, rfl⟩ := first
    cases s with
    | execute e u q => simp [second.2.2.1] at type
    | cancel e tx =>
      obtain ⟨rfl, -, rfl⟩ := second
      rfl

/-- What a connected client asks for is passed on. -/
theorem take_of_asks (found : Table.find? b.clients c = some true) (valid : p.validate = .ok ())
    (asks : Asks c p r) : (b.take links true (.event (.packet c p))).2 = [.request r] := by
  cases r with
  | execute d t q =>
    obtain ⟨rfl, rfl, type, target⟩ := asks
    have checked := check_of_checked valid (.targeted (by rw [type]; rfl) target)
    simp only [take, handle, handlePacket, found, checked, act, type, execute]
    rfl
  | cancel d tx =>
    obtain ⟨rfl, type, rfl⟩ := asks
    have checked := check_of_checked valid (.plain (.inr type))
    simp only [take, handle, handlePacket, found, checked, act, type, cancel]
    rfl

/-- The machine is asked at most once at a time, and for a packet of a connected client. -/
theorem Took.requests (took : Took links b machineOpen input o) :
    Patchbay.requests o.2 = [] ∨ ∃ c p r, machineOpen = true ∧ input = .event (.packet c p) ∧
      Table.find? b.clients c = some true ∧ p.validate = .ok () ∧ Asks c p r ∧
      Patchbay.requests o.2 = [r] := by
  cases took with
  | accepts | ignores => exact .inl rfl
  | closes c => exact .inl (requests_removeClient b c)
  | refuses => exact .inl (by simp [refuse, andThen, requests_send, requests_removeClient])
  | greets | subscribes | unsubscribes => exact .inl (requests_send ..)
  | leaves => exact .inl (by simp [andThen, requests_send, requests_removeClient])
  | asks found valid asks => exact .inr ⟨_, _, _, rfl, rfl, found, valid, asks, rfl⟩
  | fails | replies => exact .inl (requests_sendAll ..)

/-- What a connected client asks for is passed on, and nothing else. -/
theorem request_take :
    .request r ∈ (b.take links machineOpen input).2 ↔
      machineOpen = true ∧ ∃ p, input = .event (.packet r.origin p) ∧
        Table.find? b.clients r.origin = some true ∧ p.validate = .ok () ∧ Asks r.origin p r := by
  have took := take_took links machineOpen b input
  rw [← mem_requests]
  constructor
  · intro asked
    rcases took.requests with none | ⟨c, p, s, opened, packet, found, valid, asks, one⟩
    · rw [none] at asked
      cases asked
    · rw [one] at asked
      obtain rfl := List.mem_singleton.1 asked
      rw [asks.origin]
      exact ⟨opened, p, packet, found, valid, asks⟩
  · rintro ⟨rfl, p, rfl, found, valid, asks⟩
    rw [take_of_asks found valid asks]
    exact List.mem_singleton_self r

/-- The requests of a client are for packets that it sent, each for another one, in the same order. -/
theorem Run.order (run : Run rounds b) (c : ClientId) :
    ∃ asking, asking.Sublist (heardFrom c rounds) ∧
      List.Forall₂ (Asks c) asking (requestsOf c rounds) := by
  induction run with
  | start => exact ⟨[], .slnil, .nil⟩
  | @take rounds b links machineOpen input before fresh ih =>
    obtain ⟨asking, sublist, asked⟩ := ih
    rw [heardFrom_append, requestsOf_append]
    have silent {effects : List Effect}
        (none : ∀ r ∈ requests effects, r.origin ≠ c) :
        requestsOf c [⟨links, machineOpen, input, effects⟩] = [] := by
      simpa [requestsOf] using none
    rcases (take_took links machineOpen b input).requests with
      none | ⟨d, p, r, -, rfl, -, -, asks, one⟩
    · rw [silent (by simp [none]), List.append_nil]
      exact ⟨asking, sublist.trans (List.sublist_append_left _ _), asked⟩
    · by_cases mine : d = c
      · subst mine
        have new : requestsOf d [⟨links, machineOpen, .event (.packet d p),
            (b.take links machineOpen (.event (.packet d p))).2⟩] = [r] := by
          simp [requestsOf, one, asks.origin]
        have heard : heardFrom d [⟨links, machineOpen, .event (.packet d p),
            (b.take links machineOpen (.event (.packet d p))).2⟩] = [p] := by
          simp [heardFrom, Input.heard?]
        rw [new, heard]
        exact ⟨asking ++ [p], sublist.append (List.Sublist.refl _),
          List.rel_append asked (.cons asks .nil)⟩
      · rw [silent (by simp [one, asks.origin, mine]), List.append_nil]
        exact ⟨asking, sublist.trans (List.sublist_append_left _ _), asked⟩

/-! ## Being refused -/

theorem deliver_send (sent : .deliver c q ∈ (b.send links d p).2) :
    c = d ∧ Table.has b.clients c := by
  cases known : Table.has b.clients d with
  | false =>
    obtain ⟨kept, -, silent⟩ := send_stranger links p known
    rw [silent] at sent
    cases sent
  | true =>
    generalize outcome : b.send links d p = o at sent
    have all := outcome ▸ send_sent links b d p
    cases all with
    | last | more | unknown => cases sent
    | whole | replaced =>
      cases List.mem_singleton.1 sent
      exact ⟨rfl, known⟩
    | lost | gone => exact absurd sent (deliver_removeClient _ d)

theorem deliver_sendAll {ds : List ClientId} (sent : .deliver c q ∈ (sendAll links p ds b).2) :
    Table.has b.clients c := by
  induction ds generalizing b with
  | nil => cases sent
  | cons d rest ih =>
    rcases List.mem_append.1 sent with first | later
    · exact (deliver_send first).2
    · exact known_of_send (ih later)

/-- Nothing is delivered to a client that is not known. -/
theorem Took.delivers (took : Took links b machineOpen input o) (sent : .deliver c q ∈ o.2) :
    Table.has b.clients c := by
  have leaving {d : ClientId} {p : Packet}
      (sent : .deliver c q ∈ (andThen (b.send links d p) (·.removeClient d)).2) :
      Table.has b.clients c := by
    rcases List.mem_append.1 sent with first | later
    · exact (deliver_send first).2
    · exact absurd later (deliver_removeClient _ d)
  cases took with
  | accepts | ignores => cases sent
  | closes d => exact absurd sent (deliver_removeClient b d)
  | refuses | leaves => exact leaving sent
  | greets known connect => exact (deliver_send sent).1 ▸ known
  | subscribes | unsubscribes =>
    have known := (deliver_send sent).2
    exact known
  | asks => simp at sent
  | fails | replies => exact deliver_sendAll sent

/-- To a client that is refused at most the failed answer is sent. -/
theorem packetsTo_refuse (links : Links) (b : Broker) (c : ClientId) (p : Packet) (v : Violation) :
    packetsTo c (b.refuse links c p v).2 = [] ∨
      ∃ w, packetsTo c (b.refuse links c p v).2 = [.respondFault p.tx (.violation w)] := by
  have silent (b : Broker) : packetsTo c (b.removeClient c).2 = [] :=
    List.eq_nil_iff_forall_not_mem.2 fun q member =>
      deliver_removeClient b c (mem_packetsTo.1 member)
  rw [refuse, andThen, packetsTo_append, silent, List.append_nil]
  generalize outcome : b.send links c (.respondFault p.tx (.violation v)) = o
  have sent := outcome ▸ send_sent links b c (.respondFault p.tx (.violation v))
  cases sent with
  | last | more | unknown => exact .inl rfl
  | whole => exact .inr ⟨v, by simp [packetsTo]⟩
  | @replaced free w large =>
    have failure : replacement (.respondFault p.tx (.violation v)) w =
        .respondFault p.tx (.violation w) := rfl
    exact .inr ⟨w, by simp [packetsTo, failure]⟩
  | lost | gone => exact .inl (silent _)

/-- A packet that breaks the protocol for a connected client breaks it for any. -/
theorem Offends.any (offends : Offends true p) (connected : Bool) : Offends connected p := by
  cases offends with
  | invalid invalid => exact .invalid invalid
  | version type other => exact .version type other
  | early type unconnected => cases unconnected
  | reply type => exact .reply type
  | untargeted type nowhere => exact .untargeted type nowhere

/-- Before a client is greeted, everything but a valid connect breaks the protocol. -/
theorem offends_of_not_connect (other : ¬ ValidConnect p) : Offends false p := by
  by_cases type : p.type = .connect
  · cases valid : p.validate with
    | error v => exact .invalid valid
    | ok done => exact .version type fun version => other ⟨type, valid, version⟩
  · exact .early type rfl

/-- A client that breaks the protocol is refused. -/
theorem Run.refuses (run : Run rounds b) (links : Links) (machineOpen : Bool)
    (present : Present rounds c)
    (offence : (¬ Standing rounds c ∧ ¬ ValidConnect p) ∨ Offends true p) :
    ∃ v, b.take links machineOpen (.event (.packet c p)) = b.refuse links c p v := by
  have known := run.known_iff.2 present
  obtain ⟨connected, found⟩ := Option.isSome_iff_exists.1 known
  have offends : Offends connected p := by
    rcases offence with ⟨stranger, other⟩ | offends
    · have ungreeted : connected = false := by
        by_contra greeted
        rw [Bool.not_eq_false] at greeted
        subst greeted
        exact stranger (run.standing_iff.1 found)
      rw [ungreeted]
      exact offends_of_not_connect other
    · exact offends.any connected
  obtain ⟨v, refused⟩ := check_error_iff.2 offends
  exact ⟨v, by simp only [Broker.take, handle, handlePacket, found, refused]⟩

/-- A client that was hung up on is not present any more. -/
theorem not_present_of_hangUp (member : round ∈ rounds) (gone : .hangUp c ∈ round.effects) :
    ¬ Present rounds c := fun present => present.2 round member gone

/-! ## Main result -/

/-- What the history of a broker says about its clients and their requests. -/
structure HandshakeSafe (rounds : List Round) (b : Broker) : Prop where
  /-- The machine is asked for what is asked by a packet that is in order and whose client stands, and
  for nothing else. -/
  requests : ∀ before round after, rounds = before ++ round :: after → ∀ r,
    (.request r ∈ round.effects ↔ round.machineOpen = true ∧
      ∃ p, round.input = .event (.packet r.origin p) ∧ Standing before r.origin ∧
        p.validate = .ok () ∧ Asks r.origin p r)
  /-- The requests of a client are in the order of its packets, one for each of some of them. -/
  order : ∀ c, ∃ asking, asking.Sublist (heardFrom c rounds) ∧
    List.Forall₂ (Asks c) asking (requestsOf c rounds)
  /-- A client that sends something else before it was greeted, or that breaks the protocol, is hung up
  on and has nothing left. Nothing is asked for it from then on, and it is sent at most one packet, the
  failed answer. -/
  refused : ∀ before round after c p, rounds = before ++ round :: after →
    round.input = .event (.packet c p) → Present before c →
    (¬ Standing before c ∧ ¬ ValidConnect p) ∨ Offends true p →
      .hangUp c ∈ round.effects ∧ Table.find? b.clients c = none ∧ ¬ b.subscriptions.Holds c ∧
      requestsOf c (round :: after) = [] ∧
      (sentTo c (round :: after) = [] ∨
        ∃ v, sentTo c (round :: after) = [.respondFault p.tx (.violation v)])

/-- In every run of the broker, whatever its links do. -/
theorem handshake_safe (run : Run rounds b) : HandshakeSafe rounds b := by
  constructor
  case requests =>
    intro before round after split r
    obtain ⟨past, earlier, -, effects, -⟩ := run.at_round split
    rw [effects, request_take, ← earlier.standing_iff]
  case order => exact run.order
  case refused =>
    intro before round after c p split packet present offence
    obtain ⟨past, earlier, -, effects, -⟩ := run.at_round split
    have known := earlier.known_iff.2 present
    rw [packet] at effects
    obtain ⟨v, refused⟩ := earlier.refuses round.links round.machineOpen present offence
    rw [refused] at effects
    have gone : .hangUp c ∈ round.effects := effects ▸ hangUp_of_refused known v
    have absent : ¬ Table.has b.clients c := by
      rw [run.known_iff]
      exact not_present_of_hangUp (split ▸ by simp) gone
    have none : Table.find? b.clients c = none := by simpa [Table.has] using absent
    -- behind that round the broker does not know the client
    have later {past : List Round} {other : Round} {rest : List Round}
        (behind : after = past ++ other :: rest) :
        (∀ r ∈ Patchbay.requests other.effects, r.origin ≠ c) ∧
          packetsTo c other.effects = [] := by
      have there : rounds = (before ++ round :: past) ++ other :: rest := by
        rw [split, behind]
        simp
      obtain ⟨state, before', -, done, -⟩ := run.at_round there
      have missing : ¬ Table.has state.clients c := by
        rw [before'.known_iff]
        exact not_present_of_hangUp (by simp) gone
      rw [done]
      refine ⟨fun r asked same => ?_, ?_⟩
      · obtain ⟨-, q, -, found, -, -⟩ := request_take.1 (mem_requests.1 asked)
        rw [same] at found
        exact missing (Option.isSome_iff_exists.2 ⟨true, found⟩)
      · apply List.eq_nil_iff_forall_not_mem.2
        intro q sent
        exact missing ((take_took ..).delivers (mem_packetsTo.1 sent))
    have quiet : requestsOf c after = [] := by
      apply List.filter_eq_nil_iff.2
      intro r asked
      obtain ⟨other, member, asked⟩ := List.mem_flatMap.1 asked
      obtain ⟨past, rest, behind⟩ := List.append_of_mem member
      simpa using (later behind).1 r asked
    have unsent : sentTo c after = [] := by
      apply List.flatMap_eq_nil_iff.2
      intro other member
      obtain ⟨past, rest, behind⟩ := List.append_of_mem member
      exact (later behind).2
    refine ⟨gone, none, fun held => ?_, ?_, ?_⟩
    · have enrolled := run.coherent.enrolled c held
      rw [none] at enrolled
      cases enrolled
    · rw [← List.singleton_append, requestsOf_append, quiet, List.append_nil]
      simp [requestsOf, effects, refuse, andThen, requests_send, requests_removeClient]
    · have first : sentTo c (round :: after) = packetsTo c round.effects := by
        rw [sentTo, List.flatMap_cons, ← sentTo, unsent, List.append_nil]
      rw [first, effects]
      exact packetsTo_refuse round.links past c p v

/-- One client connects, executes and cancels, and then sends an answer; another one executes before it
connects, and tries again. -/
def greetingInputs : List (Links × Bool × Input) :=
  [.accepted 0, .packet 0 (.connect "a"), .packet 0 (.callFunction "t" "f" .null),
    .accepted 1, .packet 1 (.callFunction "u" "f" .null), .packet 1 (.connect "b"),
    .packet 0 (.subscribe "c" (.function "f")), .packet 0 (.cancel "t"),
    .packet 0 (.respondOk "d"), .packet 0 (.callFunction "v" "f" .null)].map
    fun e => (fun _ _ => .ok (), true, .event e)

theorem handshake_safe_greeting :
    ∃ rounds b, Run rounds b ∧
      requestsOf 0 rounds =
        [.execute 0 (.function "f") (.callFunction "t" "f" .null), .cancel 0 "t"] ∧
      requestsOf 1 rounds = [] ∧
      sentTo 1 rounds = [.respondFault "u" (.violation .notConnected)] ∧ b.clients = [] ∧
      HandshakeSafe rounds b := by
  have run := Run.start.takeAll greetingInputs (by decide)
  exact ⟨_, _, run, rfl, rfl, rfl, rfl, handshake_safe run⟩

end Patchbay.Broker
