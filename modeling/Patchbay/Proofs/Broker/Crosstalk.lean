import Patchbay.Proofs.Broker.Courses
import Patchbay.Proofs.Broker.Interleaving
import Patchbay.Proofs.Broker.Leftovers
import Patchbay.Proofs.Broker.Viewpoints

/-!
# Two clients under one id

Ids are chosen by clients, so two of them may run executes under the same one. The machine tells these
apart by their clients; the broker withholds packets by their receiver and the id alone. A third
client that is subscribed to both targets is thus sent of each stream what it would be sent without
the other one only as long as no stream is interrupted by the other while it is withheld.
-/

namespace Patchbay.Broker

variable {s a b d : ClientId} {x : String} {broker broker' : Broker} {links : Links}
  {machineOpen : Bool} {input : Input} {rounds rounds' : List Round} {r : Reply}

/-- Inputs of a run, with the links and the machine at each of them. -/
abbrev Inputs := List (Links × Bool × Input)

/-- A reply to a client under an id. -/
def Input.repliesTo (d : ClientId) (x : String) : Input → Bool
  | .reply r => decide (r.origin = d ∧ r.packet.tx = x)
  | .event _ => false

/-- The inputs without the replies to a client under an id. -/
def without (d : ClientId) (x : String) (inputs : Inputs) : Inputs :=
  inputs.filter fun i => !i.2.2.repliesTo d x

/-- What a client is sent under an id, at each of the replies to another client. -/
def sentAt (s d : ClientId) (x : String) (rounds : List Round) : List (List Packet) :=
  (rounds.filter (·.input.repliesTo d x)).map fun round => deliveredTo s x round.effects

/-- What a client is sent of the replies to another client, from the start of the broker. -/
def sentOf (s d : ClientId) (x : String) (inputs : Inputs) : List (List Packet) :=
  sentAt s d x (init.takeAll inputs).1

/-- A reply under an id, and whether it is offered to a client. -/
def trackOne (s : ClientId) (x : String) (b : Broker) : Input → Track
  | .reply r =>
    if r.packet.tx = x then
      [(r.origin,
        if s ∈ b.subscriptions.recipients r.origin r.target then some r.packet else none)]
    else []
  | .event _ => []

/-- The replies under an id, and which of them are offered to a client. -/
def track (s : ClientId) (x : String) (b : Broker) : Inputs → Track
  | [] => []
  | (links, machineOpen, input) :: rest =>
    trackOne s x b input ++ track s x (b.take links machineOpen input).1 rest

/-- What a client is offered under an id, with the clients whose executes are answered. -/
def shared (s : ClientId) (x : String) (inputs : Inputs) : List (ClientId × Packet) :=
  (track s x .init inputs).offered

/-- An input of a run in which two clients use an id and a third one does not. Executes under the id
are passed on to the machine. -/
structure Admits (s a b : ClientId) (x : String) (i : Links × Bool × Input) : Prop where
  faithful : Faithful i.1 s
  silent : ∀ p, i.2.2 = .event (.packet s p) → p.tx ≠ x
  machine : ∀ c p, i.2.2 = .event (.packet c p) → p.tx = x → i.2.1 = true
  origin : ∀ r, i.2.2 = .reply r → r.packet.tx = x → r.origin = a ∨ r.origin = b

/-- The broker does not hang up on a client. -/
def Remains (s : ClientId) (rounds : List Round) : Prop := ∀ round ∈ rounds, .hangUp s ∉ round.effects

/-- A third client that stays while two others use an id, both together and each by itself. -/
structure Bystander (s a b : ClientId) (x : String) (inputs : Inputs) : Prop where
  once : (inputs.filterMap (·.2.2.accepted?)).Nodup
  apart : a ≠ b
  third : s ≠ a ∧ s ≠ b
  admits : ∀ i ∈ inputs, Admits s a b x i
  both : Remains s (init.takeAll inputs).1
  first : Remains s (init.takeAll (without b x inputs)).1
  second : Remains s (init.takeAll (without a x inputs)).1

/-! ## One input -/

theorem sendAll_other {p : Packet} {ds : List ClientId} (apart : p.tx ≠ x)
    (kept : .hangUp s ∉ (sendAll links p ds broker).2) :
    Relays s x broker [] (sendAll links p ds broker) := by
  induction ds generalizing broker with
  | nil => exact .nothing (.refl s broker) rfl rfl rfl
  | cons d rest ih =>
    have first := send_other (x := x) (fun both => apart both.2) (kept_first kept)
    exact first.andThen (ih (kept_second kept))

/-- A reply is offered to each of its recipients once. -/
theorem offeredTo_of_nodup {ds : List ClientId} (once : ds.Nodup) (tx : r.packet.tx = x) :
    offeredTo s x (ds.map (·, r)) = if s ∈ ds then [r.packet] else [] := by
  induction ds with
  | nil => rfl
  | cons d rest ih =>
    obtain ⟨absent, once⟩ := List.nodup_cons.1 once
    rw [List.map_cons, ← List.singleton_append, offeredTo_append, ih once]
    by_cases mine : d = s
    · subst mine
      simp [offeredTo, tx, absent]
    · simp [offeredTo, mine, Ne.symm mine]

/-- For a client and a transaction, an outcome is that of passing some packets, whatever the machine
is asked. -/
structure Passes (s : ClientId) (x : String) (b : Broker) (ps : List Packet) (o : Outcome) :
    Prop where
  delivered : deliveredTo s x o.2 = (passAll (b.withholds s x) ps).2
  withheld : o.1.withholds s x = (passAll (b.withholds s x) ps).1

theorem Relays.passes {ps : List Packet} {o : Outcome} (relays : Relays s x broker ps o) :
    Passes s x broker ps o := ⟨relays.delivered, relays.withheld⟩

/-- An event passes nothing of the transactions of others. -/
theorem event_passes {e : Event} (silent : ∀ p, e = .packet s p → p.tx ≠ x)
    (machine : ∀ c p, e = .packet c p → p.tx = x → machineOpen = true)
    (kept : .hangUp s ∉ (broker.handle links machineOpen e).2) :
    Passes s x broker [] (broker.handle links machineOpen e) := by
  cases asks : broker.ask? e with
  | none => exact (handle_relays asks (fun p packet tx => absurd tx (silent p packet)) kept).passes
  | some r =>
    rw [handle_ask asks] at kept ⊢
    cases machineOpen with
    | true => exact ⟨rfl, rfl⟩
    | false =>
      obtain ⟨p, packet, tx, -⟩ := Traffic.packet_of_ask asks
      refine (sendAll_other (fun same => ?_) kept).passes
      have own : (unavailable r).packet.tx = r.tx := by cases r <;> rfl
      cases machine r.origin p packet (tx.trans (own.symm.trans same))

/-- For a third client, an input comes to passing what it is offered. -/
theorem take_passes (coherent : broker.Coherent) (third : s ≠ a ∧ s ≠ b)
    (admits : Admits s a b x (links, machineOpen, input))
    (kept : .hangUp s ∉ (broker.take links machineOpen input).2) :
    Passes s x broker ((trackOne s x broker input).offered.map (·.2))
      (broker.take links machineOpen input) := by
  cases input with
  | event e =>
    exact event_passes (fun p packet => admits.silent p (by rw [packet]))
      (fun c p packet => admits.machine c p (by rw [packet])) kept
  | reply r =>
    by_cases tx : r.packet.tx = x
    · have foreign : r.origin ≠ s := by
        rintro rfl
        exact (admits.origin r rfl tx).elim third.1 third.2
      have enrolled : Enrolled broker s := fun held => by simp [Table.has, coherent.enrolled s held]
      have relays := deliverReply_relays (x := x) admits.faithful enrolled
        (fun origin => absurd origin foreign) kept
      rw [offers, offeredTo_of_nodup (coherent.once.recipients r.origin r.target) tx] at relays
      have same : (trackOne s x broker (.reply r)).offered.map (·.2) =
          if s ∈ broker.subscriptions.recipients r.origin r.target then [r.packet] else [] := by
        rw [trackOne, if_pos tx]
        split <;> rfl
      rw [same]
      exact relays.passes
    · have none : trackOne s x broker (.reply r) = [] := if_neg tx
      rw [none]
      exact (sendAll_other tx kept).passes

/-! ## Whole runs -/

/-- What passes of one reply, and what comes of the replies behind it. -/
theorem fates_trackOne {o : Outcome} {t : Track}
    (passes : Passes s x broker ((trackOne s x broker input).offered.map (·.2)) o) (d : ClientId) :
    (trackOne s x broker input ++ t).fates (broker.withholds s x) d =
      (if input.repliesTo d x then [deliveredTo s x o.2] else []) ++
        t.fates (o.1.withholds s x) d := by
  obtain ⟨delivered, withheld⟩ := passes
  rw [delivered, withheld]
  cases input with
  | event e => rfl
  | reply r =>
    by_cases tx : r.packet.tx = x
    · have mine : Input.repliesTo d x (.reply r) = decide (r.origin = d) := by
        simp [Input.repliesTo, tx]
      rw [mine, trackOne, if_pos tx]
      by_cases offered : s ∈ broker.subscriptions.recipients r.origin r.target
      · rw [if_pos offered, List.singleton_append, Track.fates_some]
        simp only [decide_eq_true_eq]
        split <;> simp [Track.offered, passAll]
      · rw [if_neg offered, List.singleton_append, Track.fates_none]
        simp only [decide_eq_true_eq]
        split <;> simp [Track.offered, passAll]
    · simp [trackOne, Input.repliesTo, tx, passAll, Track.offered]

/-- What a client is sent of each stream is what becomes of the replies that it is offered. -/
theorem sentAt_takeAll {inputs : Inputs} (run : Run rounds broker) (fresh : Fresh rounds inputs)
    (third : s ≠ a ∧ s ≠ b) (admits : ∀ i ∈ inputs, Admits s a b x i)
    (remains : Remains s (broker.takeAll inputs).1) (d : ClientId) :
    sentAt s d x (broker.takeAll inputs).1 =
      (track s x broker inputs).fates (broker.withholds s x) d := by
  induction inputs generalizing rounds broker with
  | nil => rfl
  | cons i rest ih =>
    obtain ⟨links, machineOpen, input⟩ := i
    obtain ⟨here, later⟩ := List.forall_mem_cons.1 admits
    obtain ⟨kept, remains⟩ := List.forall_mem_cons.1 remains
    have next := ih (run.take links machineOpen input fresh.first) fresh.later later remains
    have passes := take_passes run.coherent third here kept
    rw [track, fates_trackOne passes, ← next]
    simp only [takeAll, sentAt, List.filter_cons]
    split <;> rfl

/-- Leaving out the replies to one client leaves out these and changes nothing else of what another
client is offered. -/
theorem track_without {inputs : Inputs} (run : Run rounds broker) (run' : Run rounds' broker')
    (fresh : Fresh rounds inputs) (fresh' : Fresh rounds' inputs) (alike : Alike s broker broker')
    (remains : Remains s (broker.takeAll inputs).1)
    (remains' : Remains s (broker'.takeAll (without a x inputs)).1) :
    track s x broker' (without a x inputs) = (track s x broker inputs).without a := by
  induction inputs generalizing rounds rounds' broker broker' with
  | nil => rfl
  | cons i rest ih =>
    obtain ⟨links, machineOpen, input⟩ := i
    obtain ⟨kept, remains⟩ := List.forall_mem_cons.1 remains
    have next := run.take links machineOpen input fresh.first
    have split : (trackOne s x broker input ++
        track s x (broker.take links machineOpen input).1 rest).without a =
          (trackOne s x broker input).without a ++
            (track s x (broker.take links machineOpen input).1 rest).without a :=
      List.filter_append ..
    rw [track, split]
    by_cases left : input.repliesTo a x
    · cases input with
      | event e => cases left
      | reply r =>
        obtain ⟨rfl, tx⟩ := of_decide_eq_true left
        have out : without r.origin x ((links, machineOpen, .reply r) :: rest) =
            without r.origin x rest := by simp [without, left]
        have gone : (trackOne s x broker (.reply r)).without r.origin = [] := by
          simp [trackOne, tx, Track.without]
        have foreign : (Input.reply r).client? ≠ some s := by simp [Input.client?]
        have same := run.logged.alike_took (take_took links machineOpen broker (.reply r)) foreign kept
        have still : Fresh rounds' rest := by simpa [Fresh, Input.accepted?] using fresh'
        rw [out] at remains' ⊢
        rw [gone, List.nil_append]
        exact ih next run' fresh.later still (same.symm.trans alike) remains remains'
    · have stays : without a x ((links, machineOpen, input) :: rest) =
          (links, machineOpen, input) :: without a x rest := by simp [without, left]
      rw [stays] at remains' ⊢
      obtain ⟨kept', remains'⟩ := List.forall_mem_cons.1 remains'
      have next' := run'.take links machineOpen input fresh'.first
      have again := alike.take run.logged run'.logged kept kept'
      have same : trackOne s x broker' input = (trackOne s x broker input).without a := by
        cases input with
        | event e => rfl
        | reply r =>
          have apart : r.packet.tx = x → r.origin ≠ a := fun tx origin =>
            left (by simp [Input.repliesTo, tx, origin])
          simp only [trackOne, alike.recipients r.origin r.target]
          split
          · next tx => simp [Track.without, apart tx]
          · rfl
      rw [track, same, ih next next' fresh.later fresh'.later again remains remains']

/-- Only the two clients are answered under the id. -/
theorem track_owners {inputs : Inputs} (admits : ∀ i ∈ inputs, Admits s a b x i) :
    ∀ o ∈ track s x broker inputs, o.1 = a ∨ o.1 = b := by
  induction inputs generalizing broker with
  | nil => simp [track]
  | cons i rest ih =>
    obtain ⟨links, machineOpen, input⟩ := i
    obtain ⟨here, later⟩ := List.forall_mem_cons.1 admits
    intro o member
    rcases List.mem_append.1 member with first | other
    · cases input with
      | event e => cases first
      | reply r =>
        simp only [trackOne] at first
        split at first
        · next tx =>
          obtain rfl := List.mem_singleton.1 first
          exact here.origin r rfl tx
        · cases first
    · exact ih later o other

theorem Admits.swap {i : Links × Bool × Input} (admits : Admits s a b x i) : Admits s b a x i :=
  { admits with origin := fun r same tx => (admits.origin r same tx).symm }

/-- What is sent of a stream when the other one is left out. -/
theorem sentOf_without {inputs : Inputs} (once : (inputs.filterMap (·.2.2.accepted?)).Nodup)
    (third : s ≠ a ∧ s ≠ b) (admits : ∀ i ∈ inputs, Admits s a b x i)
    (remains : Remains s (init.takeAll inputs).1)
    (remains' : Remains s (init.takeAll (without a x inputs)).1) (d : ClientId) :
    sentOf s d x (without a x inputs) = ((track s x init inputs).without a).fates false d := by
  have fresh : Fresh [] inputs := once
  have fewer : (without a x inputs).filterMap (·.2.2.accepted?) =
      inputs.filterMap (·.2.2.accepted?) := by
    rw [without, List.filterMap_filter]
    refine List.filterMap_congr fun i _ => ?_
    cases input : i.2.2 <;> simp [Input.repliesTo, Input.accepted?]
  have fresh' : Fresh [] (without a x inputs) := by
    unfold Fresh
    rw [fewer]
    exact once
  have same := track_without Run.start Run.start fresh fresh (.refl s init) remains remains'
  rw [← same]
  exact sentAt_takeAll Run.start fresh' third
    (fun i member => admits i (List.mem_of_mem_filter member)) remains' d

/-! ## Two calls -/

theorem takeAll_append (inputs more : Inputs) :
    broker.takeAll (inputs ++ more) =
      ((broker.takeAll inputs).1 ++ ((broker.takeAll inputs).2.takeAll more).1,
        ((broker.takeAll inputs).2.takeAll more).2) := by
  induction inputs generalizing broker with
  | nil => rfl
  | cons i rest ih => simp [takeAll, ih]

/-- Three clients connect, the third subscribes to a function, and the others call it under one id. -/
def opening : Inputs :=
  [.accepted 0, .accepted 1, .accepted 2, .packet 0 (.connect "k"), .packet 1 (.connect "l"),
    .packet 2 (.connect "m"), .packet 2 (.subscribe "s" (.function "f")), .packet 0 Traffic.call,
    .packet 1 Traffic.call].map fun e => (Traffic.links Traffic.everyone, true, .event e)

/-- A reply to one of the calls. -/
def answer (serial : Nat) (d : ClientId) (p : Packet) : Links × Bool × Input :=
  (Traffic.links Traffic.everyone, true, .reply ⟨serial, d, some (.function "f"), p⟩)

/-- A reply to the first call is too large, and then both calls end. -/
def calls (d e : ClientId) : Inputs :=
  opening ++ [answer 0 0 Traffic.flood, answer 1 d Traffic.final, answer 2 e Traffic.final]

/-- The first reply was too large for the caller and for the third client. -/
def silenced : Broker :=
  ⟨[(0, true), (1, true), (2, true)], ⟨[(.function "f", [2])]⟩, [(2, "t"), (0, "t")]⟩

theorem takeAll_opening (rest : Inputs) :
    init.takeAll (opening ++ answer 0 0 Traffic.flood :: rest) =
      ((init.takeAll opening).1 ++
        ⟨Traffic.links Traffic.everyone, true, (answer 0 0 Traffic.flood).2.2,
          [.deliver 0 Traffic.failure, .deliver 2 Traffic.failure]⟩ :: (silenced.takeAll rest).1,
        (silenced.takeAll rest).2) := by
  have recipients :
      (init.takeAll opening).2.subscriptions.recipients 0 (some (.function "f")) = [0, 2] := rfl
  have first : (init.takeAll opening).2.send (Traffic.links Traffic.everyone) 0 Traffic.flood =
      (⟨[(0, true), (1, true), (2, true)], ⟨[(.function "f", [2])]⟩, [(0, "t")]⟩,
        [.deliver 0 Traffic.failure]) := Traffic.send_flood 0 rfl rfl
  have both := sendAll_pair first (Traffic.send_flood 2 rfl rfl)
  rw [← recipients] at both
  have taken : (init.takeAll opening).2.take (Traffic.links Traffic.everyone) true
      (answer 0 0 Traffic.flood).2.2 = _ := both
  rw [takeAll_append, answer, takeAll]
  rw [answer] at taken
  simp only [taken]
  rfl

theorem without_opening (d : ClientId) (x : String) (replies : Inputs) :
    without d x (opening ++ replies) = opening ++ without d x replies := by
  rw [without, List.filter_append]
  rfl

theorem without_flood (replies : Inputs) :
    without 1 "t" (answer 0 0 Traffic.flood :: replies) =
      answer 0 0 Traffic.flood :: without 1 "t" replies := rfl

theorem remains_of_all {rounds : List Round}
    (all : (rounds.all fun round => round.effects.all fun | .hangUp d => d != s | _ => true) = true) :
    Remains s rounds :=
  fun round member => Traffic.not_hungUp (List.all_eq_true.1 all round member)

/-- Nobody but the callers uses the id of the calls. -/
theorem admits_calls (replies : List (Nat × ClientId × Packet))
    (owners : ∀ r ∈ replies, r.2.1 = 0 ∨ r.2.1 = 1) :
    ∀ i ∈ opening ++ replies.map fun r => answer r.1 r.2.1 r.2.2, Admits 2 0 1 "t" i := by
  have faithful : Faithful (Traffic.links Traffic.everyone) 2 := Traffic.faithful _ 2
  intro i member
  rcases List.mem_append.1 member with first | later
  · obtain ⟨e, heard, rfl⟩ := List.mem_map.1 first
    refine ⟨faithful, fun p packet => ?_, fun _ _ _ _ => rfl, by simp⟩
    obtain rfl : e = .packet 2 p := by simpa using packet
    have sent : p = .connect "m" ∨ p = .subscribe "s" (.function "f") := by simpa using heard
    rcases sent with rfl | rfl <;> decide
  · obtain ⟨r, replied, rfl⟩ := List.mem_map.1 later
    refine ⟨faithful, by simp [answer], fun _ _ _ _ => rfl, fun q same _ => ?_⟩
    obtain rfl := Input.reply.inj same
    exact owners r replied

/-- The third client is a bystander of the calls, in whichever order they end. -/
theorem bystander_calls {d e : ClientId} (order : d = 0 ∧ e = 1 ∨ d = 1 ∧ e = 0) :
    Bystander 2 0 1 "t" (calls d e) where
  once := by simp [calls, opening, answer, Input.accepted?]
  apart := by decide
  third := by decide
  admits := admits_calls [(0, 0, Traffic.flood), (1, d, Traffic.final), (2, e, Traffic.final)]
    (by rcases order with ⟨rfl, rfl⟩ | ⟨rfl, rfl⟩ <;> simp)
  both := by
    rw [calls, takeAll_opening]
    rcases order with ⟨rfl, rfl⟩ | ⟨rfl, rfl⟩ <;> exact remains_of_all rfl
  first := by
    rw [calls, without_opening, without_flood, takeAll_opening]
    rcases order with ⟨rfl, rfl⟩ | ⟨rfl, rfl⟩ <;> exact remains_of_all rfl
  second := by
    rcases order with ⟨rfl, rfl⟩ | ⟨rfl, rfl⟩ <;> exact remains_of_all rfl

/-! ## Main result -/

/-- A third client is sent of each of two streams under one id what it is sent of it in the same run
without the other one, reply by reply, exactly when neither stream is interrupted by the other while
it is withheld from that client. -/
theorem spared_iff_not_interrupted {inputs : Inputs} (bystander : Bystander s a b x inputs) :
    (sentOf s b x inputs = sentOf s b x (without a x inputs) ∧
      sentOf s a x inputs = sentOf s a x (without b x inputs)) ↔
    ¬ Interrupted (shared s x inputs) := by
  obtain ⟨once, apart, third, admits, both, first, second⟩ := bystander
  have whole (d : ClientId) : sentOf s d x inputs = (track s x init inputs).fates false d :=
    sentAt_takeAll Run.start once third admits both d
  rw [whole, whole, sentOf_without once third admits both second,
    sentOf_without once third.symm (fun i member => (admits i member).swap) both first]
  exact (Track.undisturbed_iff apart (track_owners admits)).1

/-- The first stream has ended before the second one is answered. -/
theorem spared_iff_not_interrupted_calls :
    Bystander 2 0 1 "t" (calls 0 1) ∧ sentOf 2 1 "t" (calls 0 1) = [[Traffic.final]] ∧
      sentOf 2 0 "t" (calls 0 1) = [[Traffic.failure], []] ∧
      ¬ Interrupted (shared 2 "t" (calls 0 1)) := by
  have bystander : Bystander 2 0 1 "t" (calls 0 1) := bystander_calls (.inl ⟨rfl, rfl⟩)
  have first : sentOf 2 0 "t" (calls 0 1) = [[Traffic.failure], []] := by
    rw [sentOf, calls, takeAll_opening]
    rfl
  have second : sentOf 2 1 "t" (calls 0 1) = [[Traffic.final]] := by
    rw [sentOf, calls, takeAll_opening]
    rfl
  have firstAlone : sentOf 2 0 "t" (without 1 "t" (calls 0 1)) = [[Traffic.failure], []] := by
    rw [sentOf, calls, without_opening, without_flood, takeAll_opening]
    rfl
  have secondAlone : sentOf 2 1 "t" (without 0 "t" (calls 0 1)) = [[Traffic.final]] := rfl
  exact ⟨bystander, second, first, (spared_iff_not_interrupted bystander).1
    ⟨second.trans secondAlone.symm, first.trans firstAlone.symm⟩⟩

/-- A stream is withheld because another one under its id is. -/
theorem not_spared_calls :
    Bystander 2 0 1 "t" (calls 1 0) ∧ sentOf 2 1 "t" (calls 1 0) = [[]] ∧
      sentOf 2 1 "t" (without 0 "t" (calls 1 0)) = [[Traffic.final]] := by
  have together : sentOf 2 1 "t" (calls 1 0) = [[]] := by
    rw [sentOf, calls, takeAll_opening]
    rfl
  exact ⟨bystander_calls (.inr ⟨rfl, rfl⟩), together, rfl⟩

end Patchbay.Broker
