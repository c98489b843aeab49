import Patchbay.Proofs.Clients.Taps

/-!
# Operations of clients

What one operation of a client does to the packets: it takes the earliest one that it wants from those
that are kept, or else reads from the channel until one comes, and keeps all that it passes over.
-/

namespace Patchbay

variable {α : Type} [Channel α]

namespace Client

/-! ## Operations -/

/-- What is done with a client. Waits are given up when they run out of fuel. -/
inductive Operation where
  | listen (timeout : Option Nat)
  | waitFor (fuel : Nat) (tx : String)
  | connect (fuel : Nat)
  | subscribe (fuel : Nat) (target : Target)
  | unsubscribe (fuel : Nat) (target : Target)
  | cancel (fuel : Nat) (tx : String)
  | disconnect (fuel : Nat)
  | execute (packet : String → Packet)
  | sendExecute (packet : Packet)

/-- How an operation ends: with a packet, with what an answer says, with nothing, or broken off by a
timeout or an error of the channel. -/
inductive Outcome where
  | yielded (p : Packet)
  | answered (failure : Option Remote)
  | nothing
  | broken (b : Break ClientError)

namespace Outcome

def ofListen : Except (Break ClientError) (Option Packet) → Outcome
  | .ok (some p) => yielded p
  | .ok none => nothing
  | .error b => broken b

def ofWait : Except (Break ClientError) Packet → Outcome
  | .ok p => yielded p
  | .error b => broken b

/-- A failure that the broker reports is an answer. -/
def ofAnswer : Except (Break ClientError) Unit → Outcome
  | .ok _ => answered none
  | .error (.error (.remote r)) => answered (some r)
  | .error b => broken b

def ofConnect (tx : String) : Except (Break ConnectError) Unit → Outcome
  | .ok _ => answered none
  | .error (.error (.rejected r)) => answered (some r)
  | .error (.error (.transport e)) => broken (.error (.transport e))
  | .error (.error .timeout) => broken (.error (.timeout tx))
  | .error .abandoned => broken .abandoned

def ofExecute : Except ClientError String → Outcome
  | .ok _ => nothing
  | .error e => broken (.error e)

/-- The outcome is that of taking this packet, or none. -/
def Fits : Outcome → Option Packet → Prop
  | yielded p, found => found = some p
  | answered failure, found => ∃ p, found = some p ∧ failure = p.failure?
  | nothing, found | broken _, found => found = none

end Outcome

namespace Operation

def perform : Operation → Client α → Outcome × Client α
  | listen timeout, c => (c.listen timeout).map Outcome.ofListen id
  | waitFor fuel tx, c => (c.waitFor fuel tx).map Outcome.ofWait id
  | connect fuel, c => (c.connect fuel).map (Outcome.ofConnect c.freshId.1) id
  | subscribe fuel target, c => (c.subscribe fuel target).map Outcome.ofAnswer id
  | unsubscribe fuel target, c => (c.unsubscribe fuel target).map Outcome.ofAnswer id
  | cancel fuel tx, c => (c.cancel fuel tx).map Outcome.ofAnswer id
  | disconnect fuel, c => (c.disconnect fuel).map Outcome.ofAnswer id
  | execute packet, c => (c.execute packet).map Outcome.ofExecute id
  | sendExecute packet, c => (c.sendExecute packet).map Outcome.ofExecute id

/-- The packets that an operation is there for: any, the outputs of a transaction, or the answers to
one, which may be new. -/
def wants (c : Client α) : Operation → Packet → Bool
  | listen _, _ => true
  | waitFor _ tx, p => (Want.output tx).accepts p
  | connect _, p | subscribe _ _, p | unsubscribe _ _, p | disconnect _, p =>
    (Want.answer c.freshId.1).accepts p
  | cancel _ tx, p => (Want.answer tx).accepts p
  | execute _, _ | sendExecute _, _ => false

/-- What an operation sends before it waits for the answer. -/
def question? (c : Client α) : Operation → Option Packet
  | connect _ => some (.connect c.freshId.1)
  | subscribe _ target => some (.subscribe c.freshId.1 target)
  | unsubscribe _ target => some (.unsubscribe c.freshId.1 target)
  | cancel _ tx => some (.cancel tx)
  | disconnect _ => some (.disconnect c.freshId.1)
  | _ => none

/-- The operation does not fail to send what it waits for an answer to. -/
def Asks (op : Operation) (c : Client α) : Prop :=
  ∀ p, op.question? c = some p → ∃ x, Channel.send c.channel p = .ok x

end Operation

/-- A tap does not change what an operation does. -/
theorem Operation.perform_plain (op : Operation) (c : Client (Tapped α)) :
    op.perform c.plain = (op.perform c).map id plain := by
  cases op with
  | listen timeout => rw [perform, listen_plain]; rfl
  | waitFor fuel tx => rw [perform, waitFor_plain]; rfl
  | connect fuel => rw [perform, connect_plain]; rfl
  | subscribe fuel target =>
    have asked := request_plain (c := c.freshId.2) fuel (.subscribe c.freshId.1 target)
    exact congrArg (Prod.map Outcome.ofAnswer id) asked
  | unsubscribe fuel target =>
    have asked := request_plain (c := c.freshId.2) fuel (.unsubscribe c.freshId.1 target)
    exact congrArg (Prod.map Outcome.ofAnswer id) asked
  | cancel fuel tx => exact congrArg (Prod.map Outcome.ofAnswer id) (request_plain fuel (.cancel tx))
  | disconnect fuel => rw [perform, disconnect_plain]; rfl
  | execute packet =>
    have sent := sendExecute_plain (c := c.freshId.2) (packet c.freshId.1)
    exact congrArg (Prod.map Outcome.ofExecute id) sent
  | sendExecute packet => rw [perform, sendExecute_plain]; rfl

/-! ## What an operation does -/

variable {w : Want} {allowance : Allowance} {c c' : Client (Tapped α)} {arrival : Arrival}
  {wants : Packet → Bool} {A : Prop}

/-- How a client takes a packet that it wants, or none: the earliest of those that it keeps, or else the
first that it reads. What it reads before is kept, and so is everything if it takes none. `A` tells
that it could ask for the packet. -/
inductive Fetch (wants : Packet → Bool) (A : Prop) (c c' : Client (Tapped α)) :
    Option Packet → Prop where
  | kept {passed others : List Packet} {p : Packet} (pending : c.pending = passed ++ p :: others)
      (unwanted : ∀ q ∈ passed, wants q = false) (wanted : wants p = true)
      (received : c'.received = c.received) (left : c'.pending = passed ++ others) :
      Fetch wants A c c' (some p)
  | read {passed : List Packet} {p : Packet} (idle : ∀ q ∈ c.pending, wants q = false)
      (unwanted : ∀ q ∈ passed, wants q = false) (wanted : wants p = true)
      (received : c'.received = c.received ++ (passed ++ [p]))
      (left : c'.pending = c.pending ++ passed) : Fetch wants A c c' (some p)
  | without {passed : List Packet} (idle : ∀ q ∈ c.pending, wants q = false)
      (unwanted : ∀ q ∈ passed, wants q = false) (received : c'.received = c.received ++ passed)
      (left : c'.pending = c.pending ++ passed) : Fetch wants A c c' none
  | unasked (fails : ¬ A) (received : c'.received = c.received) (left : c'.pending = c.pending) :
      Fetch wants A c c' none

omit [Channel α] in
/-- Only what was received and what is kept counts. -/
theorem Fetch.frame {found : Option Packet} {d d' : Client (Tapped α)} {also : Prop}
    (fetch : Fetch wants A c c' found) (asking : also → A) (received : d.received = c.received)
    (pending : d.pending = c.pending) (received' : d'.received = c'.received)
    (pending' : d'.pending = c'.pending) : Fetch wants also d d' found := by
  cases fetch with
  | kept there unwanted wanted same left =>
    exact .kept (pending.trans there) unwanted wanted (by rw [received', received, same])
      (pending'.trans left)
  | read idle unwanted wanted grown left =>
    exact .read (pending ▸ idle) unwanted wanted (by rw [received', received, grown])
      (by rw [pending', pending, left])
  | without idle unwanted grown left =>
    exact .without (pending ▸ idle) unwanted (by rw [received', received, grown])
      (by rw [pending', pending, left])
  | unasked fails same left =>
    exact .unasked (fun asked => fails (asking asked)) (by rw [received', received, same])
      (by rw [pending', pending, left])

theorem take?_eq_none {ps : List Packet} (none : take? w ps = none) :
    ∀ q ∈ ps, w.accepts q = false := by
  induction ps with
  | nil => simp
  | cons p rest ih =>
    rw [take?] at none
    split at none
    · cases none
    · next unwanted =>
      rw [Option.map_eq_none_iff] at none
      simpa [unwanted] using ih none

theorem take?_eq_some {ps others : List Packet} {p : Packet} (taken : take? w ps = some (p, others)) :
    ∃ passed rest, ps = passed ++ p :: rest ∧ (∀ q ∈ passed, w.accepts q = false) ∧
      w.accepts p = true ∧ others = passed ++ rest := by
  induction ps generalizing others with
  | nil => cases taken
  | cons q rest ih =>
    rw [take?] at taken
    split at taken
    · next wanted =>
      cases taken
      exact ⟨[], rest, rfl, by simp, wanted, rfl⟩
    · next unwanted =>
      obtain ⟨⟨found, others'⟩, later, same⟩ := Option.map_eq_some_iff.1 taken
      cases same
      obtain ⟨passed, behind, rfl, before, wanted, rfl⟩ := ih later
      refine ⟨q :: passed, behind, rfl, ?_, wanted, rfl⟩
      simpa [unwanted] using before

/-- Reading stops at the first packet that is wanted, and keeps those before. -/
theorem receive_spec {fuel : Nat} (h : receive w allowance fuel c = (arrival, c')) :
    ∃ passed, (∀ q ∈ passed, w.accepts q = false) ∧ c'.pending = c.pending ++ passed ∧
      c'.received = c.received ++ (passed ++ (Tapped.packet? arrival).toList) ∧
      ∀ p, arrival = .packet p → w.accepts p = true := by
  induction fuel generalizing c with
  | zero =>
    cases h
    exact ⟨[], by simp, by simp, by simp [Tapped.packet?], by simp⟩
  | succ fuel ih =>
    rw [receive] at h
    split at h
    · cases h
      exact ⟨[], by simp, by simp, by simp [Tapped.packet?], by simp⟩
    · next timeout time =>
      rcases came : Channel.receive c.channel timeout with ⟨x, t⟩
      have grown := Tapped.received_of_receive came
      simp only [came] at h
      split at h
      · next p =>
        split at h
        · next wanted =>
          cases h
          refine ⟨[], by simp, by simp, grown, ?_⟩
          rintro q ⟨⟩
          exact wanted
        · next unwanted =>
          obtain ⟨passed, before, pending, received, last⟩ := ih h
          refine ⟨p :: passed, by simpa [unwanted] using before, by simp [pending], ?_, last⟩
          rw [received]
          simp [Client.received, grown, Tapped.packet?]
      · next other =>
        cases h
        exact ⟨[], by simp, by simp, grown, fun p same => absurd same (other p)⟩

/-- What is awaited is what is kept of it, or else what is read. -/
theorem await_fetch {fuel : Nat} (h : c.await w allowance fuel = (arrival, c')) :
    Fetch w.accepts A c c' (Tapped.packet? arrival) := by
  rw [await] at h
  split at h
  · next p others taken =>
    cases h
    obtain ⟨passed, rest, pending, before, wanted, rfl⟩ := take?_eq_some taken
    exact .kept pending before wanted rfl rfl
  · next lacking =>
    have idle := take?_eq_none lacking
    obtain ⟨passed, before, pending, received, last⟩ := receive_spec h
    cases found : Tapped.packet? arrival with
    | none =>
      rw [found, Option.toList_none, List.append_nil] at received
      exact .without idle before received pending
    | some p =>
      rw [found] at received
      have arrived : arrival = .packet p := by
        cases arrival <;> cases found
        rfl
      exact .read idle before (last p arrived) received pending

theorem listen_fetch {timeout : Option Nat} {r : Except (Break ClientError) (Option Packet)}
    (h : c.listen timeout = (r, c')) :
    ∃ found, (Outcome.ofListen r).Fits found ∧ Fetch (fun _ => true) A c c' found := by
  rw [listen] at h
  split at h
  · next p rest pending =>
    cases h
    have first : c.pending = [] ++ p :: rest := pending
    exact ⟨some p, rfl, .kept first (by simp) rfl rfl rfl⟩
  · next empty =>
    rcases came : Channel.receive c.channel timeout with ⟨x, t⟩
    have grown := Tapped.received_of_receive came
    simp only [came] at h
    have idle : ∀ q ∈ c.pending, (fun _ : Packet => true) q = false := by simp [empty]
    have nothing : ∀ q ∈ ([] : List Packet), (fun _ : Packet => true) q = false := by simp
    cases x with
    | packet p =>
      cases h
      exact ⟨some p, rfl, .read idle nothing rfl grown (List.append_nil _).symm⟩
    | expired | failed | abandoned =>
      cases h
      exact ⟨none, rfl, .without idle nothing grown (List.append_nil _).symm⟩

theorem waitFor_fetch {fuel : Nat} {tx : String} {r : Except (Break ClientError) Packet}
    (h : c.waitFor fuel tx = (r, c')) :
    ∃ found, (Outcome.ofWait r).Fits found ∧ Fetch (Want.output tx).accepts A c c' found := by
  rw [waitFor] at h
  rcases came : c.await (.output tx) (.each c.executeTimeout) fuel with ⟨arrival, d⟩
  have fetch := await_fetch (A := A) came
  simp only [came] at h
  cases arrival <;> cases h <;> exact ⟨_, rfl, fetch⟩

theorem awaitAnswer_fetch {fuel : Nat} {tx : String} {r : Except (Break ClientError) Unit}
    (h : c.awaitAnswer fuel tx = (r, c')) :
    ∃ found, (Outcome.ofAnswer r).Fits found ∧ Fetch (Want.answer tx).accepts A c c' found := by
  rw [awaitAnswer] at h
  rcases came : c.await (.answer tx) (.upTo (c.now + c.requestTimeout)) fuel with ⟨arrival, d⟩
  have fetch := await_fetch (A := A) came
  simp only [came] at h
  cases arrival with
  | packet p =>
    cases failure : p.failure? with
    | none =>
      simp only [failure] at h
      cases h
      exact ⟨_, ⟨p, rfl, failure.symm⟩, fetch⟩
    | some r =>
      simp only [failure] at h
      cases h
      exact ⟨_, ⟨p, rfl, failure.symm⟩, fetch⟩
  | expired | failed | abandoned =>
    cases h
    exact ⟨_, rfl, fetch⟩

theorem send_frame {d : Client (Tapped α)} {p : Packet} (sent : c.send p = .ok d) :
    d.received = c.received ∧ d.pending = c.pending := by
  rw [send] at sent
  cases result : Channel.send c.channel p with
  | error e =>
    rw [result] at sent
    cases sent
  | ok t =>
    rw [result] at sent
    cases sent
    exact ⟨Tapped.received_of_send result, rfl⟩

/-- A request that cannot be sent takes nothing; one that can waits for its answer. -/
theorem request_fetch {fuel : Nat} {p : Packet} {r : Except (Break ClientError) Unit}
    (asking : A → ∃ x, Channel.send c.channel p = .ok x) (h : c.request fuel p = (r, c')) :
    ∃ found, (Outcome.ofAnswer r).Fits found ∧ Fetch (Want.answer p.tx).accepts A c c' found := by
  rw [request] at h
  split at h
  · next e fails =>
    cases h
    refine ⟨none, rfl, .unasked (fun asked => ?_) rfl rfl⟩
    obtain ⟨x, sent⟩ := asking asked
    rw [send, sent] at fails
    cases fails
  · next d sent =>
    obtain ⟨received, pending⟩ := send_frame sent
    obtain ⟨found, fits, fetch⟩ := awaitAnswer_fetch (A := A) h
    exact ⟨found, fits, fetch.frame id received.symm pending.symm rfl rfl⟩

/-- Drawing a number for the request makes no difference. -/
theorem request_freshId_fetch {fuel : Nat} {p : Packet} {r : Except (Break ClientError) Unit}
    (asking : A → ∃ x, Channel.send c.channel p = .ok x)
    (h : c.freshId.2.request fuel p = (r, c')) :
    ∃ found, (Outcome.ofAnswer r).Fits found ∧ Fetch (Want.answer p.tx).accepts A c c' found := by
  obtain ⟨found, fits, fetch⟩ := request_fetch (c := c.freshId.2) asking h
  exact ⟨found, fits, fetch.frame id rfl rfl rfl rfl⟩

/-- A client that is not let in closes its channel, which takes nothing. -/
theorem connect_fetch {fuel : Nat} {r : Except (Break ConnectError) Unit}
    (asking : A → ∃ x, Channel.send c.channel (.connect c.freshId.1) = .ok x)
    (h : c.connect fuel = (r, c')) :
    ∃ found, (Outcome.ofConnect c.freshId.1 r).Fits found ∧
      Fetch (Want.answer c.freshId.1).accepts A c c' found := by
  rcases asked : c.freshId.2.request fuel (.connect c.freshId.1) with ⟨answer, d⟩
  obtain ⟨found, fits, fetch⟩ := request_freshId_fetch asking asked
  rw [connect] at h
  simp only [asked] at h
  cases answer with
  | ok done =>
    cases h
    exact ⟨found, fits, fetch⟩
  | error b =>
    have closed : Fetch (Want.answer c.freshId.1).accepts A c d.close found :=
      fetch.frame id rfl rfl rfl rfl
    cases b with
    | abandoned =>
      cases h
      exact ⟨found, fits, closed⟩
    | error e =>
      cases e <;> cases h <;> exact ⟨found, fits, closed⟩

theorem sendExecute_fetch {p : Packet} {r : Except ClientError String}
    (h : c.sendExecute p = (r, c')) :
    ∃ found, (Outcome.ofExecute r).Fits found ∧ Fetch (fun _ => false) A c c' found := by
  have still {d : Client (Tapped α)} (received : d.received = c.received)
      (pending : d.pending = c.pending) : Fetch (fun _ => false) A c d none :=
    .without (fun _ _ => rfl) (fun _ _ => rfl) (received.trans (List.append_nil _).symm)
      (pending.trans (List.append_nil _).symm)
  rw [sendExecute] at h
  split at h
  · split at h
    · next d sent =>
      cases h
      obtain ⟨received, pending⟩ := send_frame sent
      exact ⟨none, rfl, still received pending⟩
    · cases h
      exact ⟨none, rfl, still rfl rfl⟩
  · cases h
    exact ⟨none, rfl, still rfl rfl⟩

/-- Every operation takes the earliest packet that it wants, or none. -/
theorem Operation.perform_fetch {op : Operation} {c c' : Client (Tapped α)} {o : Outcome}
    (h : op.perform c = (o, c')) :
    ∃ found, o.Fits found ∧ Fetch (op.wants c) (op.Asks c) c c' found := by
  cases op with
  | listen timeout =>
    cases h
    exact listen_fetch rfl
  | waitFor fuel tx =>
    cases h
    exact waitFor_fetch rfl
  | connect fuel =>
    cases h
    exact connect_fetch (fun asks => asks _ rfl) rfl
  | subscribe fuel target =>
    cases h
    exact request_freshId_fetch (p := .subscribe c.freshId.1 target) (fun asks => asks _ rfl) rfl
  | unsubscribe fuel target =>
    cases h
    exact request_freshId_fetch (p := .unsubscribe c.freshId.1 target) (fun asks => asks _ rfl) rfl
  | cancel fuel tx =>
    cases h
    exact request_fetch (fun asks => asks _ rfl) rfl
  | disconnect fuel =>
    cases h
    obtain ⟨found, fits, fetch⟩ := request_freshId_fetch (p := .disconnect c.freshId.1)
      (A := Operation.Asks (.disconnect fuel) c) (fun asks => asks _ rfl) rfl
    exact ⟨found, fits, fetch.frame id rfl rfl rfl rfl⟩
  | execute packet =>
    cases h
    obtain ⟨found, fits, fetch⟩ := sendExecute_fetch (c := c.freshId.2)
      (A := Operation.Asks (.execute packet) c) rfl
    exact ⟨found, fits, fetch.frame id rfl rfl rfl rfl⟩
  | sendExecute packet =>
    cases h
    exact sendExecute_fetch rfl

end Client

end Patchbay
