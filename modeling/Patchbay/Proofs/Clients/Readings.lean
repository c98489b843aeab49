import Patchbay.Cli
import Patchbay.Proofs.Packets
import Patchbay.Proofs.Clients.Consumption

/-!
# Three ways to read a transaction

The replies to an execute can be read for the last output alone, output by output, or packet by packet
until one is terminal. Each way has a test of its own for the end. On replies that were built as outputs
and failures the tests come to the same: whatever arrives in between, the three ways stop behind the same
packet and leave the same client, on any channel.
-/

namespace Patchbay

variable {α : Type} [Channel α]

/-- What a channel may bring to waits of this length, now or behind other packets. -/
inductive Brings (timeout : Option Nat) : α → Packet → Prop where
  | now {x y : α} {p : Packet} (came : Channel.receive x timeout = (.packet p, y)) :
      Brings timeout x p
  | later {x y : α} {p q : Packet} (came : Channel.receive x timeout = (.packet q, y))
      (behind : Brings timeout y p) : Brings timeout x p

/-- A reply to an execute that was built as an output or as a failure. -/
inductive Built (tx : String) : Packet → Prop where
  | output (n : UInt32) (done : Bool) (v : Value) : Built tx (.output tx n done v)
  | failure (n : UInt32) (f : Fault) : Built tx (.outputFault tx n f)

namespace Client

/-- A client may come to read a packet: it keeps the packet, or its channel may bring it. -/
def MayRead (c : Client α) (p : Packet) : Prop :=
  p ∈ c.pending ∨ Brings c.executeTimeout c.channel p

/-- Every reply to the transaction that the client may come to read was built as one. -/
def WellBuilt (tx : String) (c : Client α) : Prop :=
  ∀ p, c.MayRead p → (Want.output tx).accepts p = true → Built tx p

/-- The end of reading a transaction: the packet that ends it, if one does, whether that is a success to
who reads until a packet is terminal, and the result to who reads for the last output. A wait that ends
without a packet is the end to both. -/
inductive Ends (tx : String) :
    List Packet → Except (Break ClientError) Bool → Except (Break ClientError) Value → Prop where
  | done (n : UInt32) (v : Value) : Ends tx [.output tx n true v] (.ok true) (.ok v)
  | failed (n : UInt32) (f : Fault) : Ends tx [.outputFault tx n f] (.ok false)
      (.error (.error (.remote ⟨f.code, f.message⟩)))
  | broken {b : Break ClientError} (own : ∀ r, b ≠ .error (.remote r)) :
      Ends tx [] (.error b) (.error b)

variable {tx : String} {w : Want} {fuel limit : Nat} {c c' d : Client α} {p : Packet}

/-! ## One wait -/

/-- A wait takes a packet that the client may come to read, and after it the client may come to read no
more than before. -/
structure Draws (w : Want) (c : Client α) (p : Packet) (c' : Client α) : Prop where
  read : c.MayRead p
  wanted : w.accepts p = true
  fewer : ∀ q, c'.MayRead q → c.MayRead q

theorem receive_draws (h : receive w (.each c.executeTimeout) fuel c = (.packet p, c')) :
    Draws w c p c' := by
  induction fuel generalizing c with
  | zero => cases h
  | succ fuel ih =>
    rw [receive, Allowance.next?] at h
    rcases came : Channel.receive c.channel c.executeTimeout with ⟨x, y⟩
    simp only [came] at h
    cases x with
    | packet q =>
      dsimp only at h
      split at h
      · next wanted =>
        cases h
        exact ⟨.inr (.now came), wanted, fun r read => read.imp id (.later came)⟩
      · -- the packet is kept, so what may be read from here on could be read before
        have fewer (r : Packet)
            (read : MayRead { c with channel := y, pending := c.pending ++ [q] } r) :
            c.MayRead r := by
          rcases read with kept | brings
          · rcases List.mem_append.1 kept with old | new
            · exact .inl old
            · rw [List.mem_singleton.1 new]
              exact .inr (.now came)
          · exact .inr (.later came brings)
        have later := ih (c := { c with channel := y, pending := c.pending ++ [q] }) h
        exact ⟨fewer p later.read, later.wanted, fun r read => fewer r (later.fewer r read)⟩
    | expired | failed | abandoned => cases h

theorem await_draws (h : c.await w (.each c.executeTimeout) fuel = (.packet p, c')) :
    Draws w c p c' := by
  rw [await] at h
  split at h
  · next q others taken =>
    cases h
    obtain ⟨passed, rest, pending, -, wanted, rfl⟩ := take?_eq_some taken
    refine ⟨.inl (by simp [pending]), wanted, fun r read => read.imp_left fun kept => ?_⟩
    have kept : r ∈ passed ++ rest := kept
    rw [pending]
    exact List.mem_append.2 ((List.mem_append.1 kept).imp_right (List.mem_cons_of_mem _))
  · exact receive_draws h

theorem waitFor_draws (h : c.waitFor fuel tx = (.ok p, c')) : Draws (.output tx) c p c' := by
  rw [waitFor] at h
  rcases came : c.await (.output tx) (.each c.executeTimeout) fuel with ⟨arrival, d⟩
  simp only [came] at h
  cases arrival with
  | packet q =>
    cases h
    exact await_draws came
  | expired | failed | abandoned => cases h

/-- A wait that ends without a packet reports no failure of the other side. -/
theorem waitFor_own {b : Break ClientError} (h : c.waitFor fuel tx = (.error b, c')) (r : Remote) :
    b ≠ .error (.remote r) := by
  rw [waitFor] at h
  rcases came : c.await (.output tx) (.each c.executeTimeout) fuel with ⟨arrival, d⟩
  simp only [came] at h
  cases arrival <;> cases h <;> simp

theorem Draws.built (draws : Draws (.output tx) c p c') (built : c.WellBuilt tx) : Built tx p :=
  built p draws.read draws.wanted

theorem Draws.wellBuilt (draws : Draws (.output tx) c p c') (built : c.WellBuilt tx) :
    c'.WellBuilt tx :=
  fun q read wanted => built q (draws.fewer q read) wanted

/-! ## Runs -/

/-- What the three ways to read come to: the outputs that are not the last, with their numbers, the
packet at the end if there is one, the ending, the result, and the client behind them. -/
structure Readings (tx : String) (fuel : Nat) (c : Client α) (partials : List (UInt32 × Value))
    (final : List Packet) (ending : Except (Break ClientError) Bool)
    (last : Except (Break ClientError) Value) (c' : Client α) : Prop where
  ends : Ends tx final ending last
  follow : c.follow tx fuel =
    (partials.map (fun e => .output tx e.1 false e.2) ++ final, ending, c')
  result : c.result tx fuel = (last, c')
  responses : ∀ limit, fuel ≤ limit →
    c.responses tx fuel limit = (partials.map (fun e => .ok e.2) ++ [last], c')

variable {partials : List (UInt32 × Value)} {final : List Packet}
  {ending : Except (Break ClientError) Bool} {last : Except (Break ClientError) Value}

/-- Who has no fuel gives up at once. -/
theorem readings_abandoned (c : Client α) :
    Readings tx 0 c [] [] (.error .abandoned) (.error .abandoned) c where
  ends := .broken (fun r => by simp)
  follow := rfl
  result := rfl
  responses limit _ := rfl

theorem readings_broken {b : Break ClientError} (h : c.waitFor fuel tx = (.error b, c')) :
    Readings tx (fuel + 1) c [] [] (.error b) (.error b) c' where
  ends := .broken (waitFor_own h)
  follow := by rw [Client.follow, h]; rfl
  result := by rw [Client.result, h]
  responses
    | limit + 1, _ => by rw [Client.responses, h]; rfl

theorem readings_failed {n : UInt32} {f : Fault}
    (h : c.waitFor fuel tx = (.ok (.outputFault tx n f), c')) :
    Readings tx (fuel + 1) c [] [.outputFault tx n f] (.ok false)
      (.error (.error (.remote ⟨f.code, f.message⟩))) c' where
  ends := .failed n f
  follow := by simp [Client.follow, h]
  result := by simp [Client.result, h]
  responses
    | limit + 1, _ => by simp [Client.responses, h]

theorem readings_done {n : UInt32} {v : Value}
    (h : c.waitFor fuel tx = (.ok (.output tx n true v), c')) :
    Readings tx (fuel + 1) c [] [.output tx n true v] (.ok true) (.ok v) c' where
  ends := .done n v
  follow := by simp [Client.follow, h]
  result := by simp [Client.result, h]
  responses
    | limit + 1, _ => by simp [Client.responses, h]

/-- An output that is not the last is passed over, given out or printed, and none of the three stops. -/
theorem Readings.behind {n : UInt32} {v : Value}
    (h : c.waitFor fuel tx = (.ok (.output tx n false v), d))
    (rest : Readings tx fuel d partials final ending last c') :
    Readings tx (fuel + 1) c ((n, v) :: partials) final ending last c' where
  ends := rest.ends
  follow := by simp [Client.follow, h, rest.follow]
  result := by simp [Client.result, h, rest.result]
  responses
    | limit + 1, enough => by
      simp [Client.responses, h, rest.responses limit (Nat.le_of_succ_le_succ enough)]

/-- The three ways to read go in step, wait by wait. -/
theorem WellBuilt.readings (built : c.WellBuilt tx) (fuel : Nat) :
    ∃ partials final ending last c', Readings tx fuel c partials final ending last c' := by
  induction fuel generalizing c with
  | zero => exact ⟨_, _, _, _, _, readings_abandoned c⟩
  | succ fuel ih =>
    rcases h : c.waitFor fuel tx with ⟨b | p, d⟩
    · exact ⟨_, _, _, _, _, readings_broken h⟩
    · have draws := waitFor_draws h
      cases draws.built built with
      | failure n f => exact ⟨_, _, _, _, _, readings_failed h⟩
      | output n done v =>
        cases done with
        | true => exact ⟨_, _, _, _, _, readings_done h⟩
        | false =>
          obtain ⟨_, _, _, _, _, rest⟩ := ih (draws.wellBuilt built)
          exact ⟨_, _, _, _, _, rest.behind h⟩

/-! ## Main result -/

/-- The command that executes reports a success exactly when the result is one. -/
theorem Ends.code_iff (ends : Ends tx final ending last) (packets : List Packet) :
    (Cli.concluded packets ending).code = 0 ↔ ∃ v, last = .ok v := by
  cases ends <;> simp [Cli.concluded]

/-- However the replies to a transaction are read, the same packets are consumed and the same client is
left. The result is the last of the outputs one by one, and those before it are no failures. -/
theorem readings_agree (built : c.WellBuilt tx) (fuel : Nat) :
    ∃ partials final ending last c', Readings tx fuel c partials final ending last c' ∧
      (∀ packets, (Cli.concluded packets ending).code = 0 ↔ ∃ v, last = .ok v) ∧
      ∀ (d : Client α) p, d.sendExecute p = (.ok tx, c) → d.call fuel p = (last, c') := by
  obtain ⟨partials, final, ending, last, c', readings⟩ := built.readings fuel
  refine ⟨partials, final, ending, last, c', readings, readings.ends.code_iff, fun d p sent => ?_⟩
  rw [call, sent]
  exact readings.result

/-- What a script brings stands in it. -/
theorem mem_of_brings {timeout : Option Nat} {s : Script} (brings : Brings timeout s p) :
    .packet p ∈ s.arrivals := by
  induction brings with
  | @now s t p came =>
    rcases s with ⟨_ | ⟨x, rest⟩⟩ <;> cases came
    exact List.mem_cons_self
  | @later s t p q came behind ih =>
    rcases s with ⟨_ | ⟨x, rest⟩⟩ <;> cases came
    exact List.mem_cons_of_mem _ ih

/-- An output that is kept, and a failure that comes, between packets of other kinds; behind the failure
an output that nobody reads. -/
def interleaved : Client Script where
  channel := ⟨[.packet (.output "y" 4 true .null), .packet (.respondOk "x"),
    .packet (.outputFault "x" 1 .machineGone), .packet (.output "x" 2 true .null), .expired]⟩
  pending := [.output "y" 3 false .null, .output "x" 0 false (.bool true), .respondOk "x"]
  requestTimeout := 1000
  executeTimeout := none
  number := 1
  issued := 1

theorem interleaved_wellBuilt : interleaved.WellBuilt "x" := by
  intro p read wanted
  have there : p ∈ interleaved.pending ∨ .packet p ∈ interleaved.channel.arrivals :=
    read.imp_right mem_of_brings
  simp only [interleaved, List.mem_cons, Arrival.packet.injEq, List.not_mem_nil, or_false,
    reduceCtorEq] at there
  rcases there with (rfl | rfl | rfl) | rfl | rfl | rfl | rfl
  · cases wanted
  · exact .output 0 false _
  · cases wanted
  · cases wanted
  · cases wanted
  · exact .failure 1 _
  · exact .output 2 true _

theorem readings_agree_interleaved :
    interleaved.WellBuilt "x" ∧ (interleaved.follow "x" 5).1.map Packet.sequence = [some 0, some 1] ∧
      ∃ partials final ending last c', Readings "x" 5 interleaved partials final ending last c' ∧
        (∀ packets, (Cli.concluded packets ending).code = 0 ↔ ∃ v, last = .ok v) ∧
        ∀ (d : Client Script) p, d.sendExecute p = (.ok "x", interleaved) →
          d.call 5 p = (last, c') :=
  ⟨interleaved_wellBuilt, rfl, readings_agree interleaved_wellBuilt 5⟩

end Client

end Patchbay
