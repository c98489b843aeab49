import Patchbay.Proofs.Broker.Removal

/-!
# Streams that are cut short

A reply that fits no frame ends its stream for the client: a failure stands in its place, under its
number, and the rest is withheld up to the reply that ends the stream, where the broker forgets about it.
What the client hears is a stream too, and nothing else that the broker sends depends on it.
-/

namespace Patchbay

/-- Whether an effect delivers a packet of a transaction to a client. -/
def Effect.isOf (c : ClientId) (x : String) : Effect → Bool
  | .deliver d p => d = c ∧ p.tx = x
  | _ => false

namespace Broker

/-- Sends packets, each to its client, one after the other. -/
def sendEach (links : Links) : List (ClientId × Packet) → Broker → Outcome
  | [], b => (b, [])
  | (d, p) :: rest, b => andThen (b.send links d p) (sendEach links rest)

/-- Whether what is sent is a packet of a transaction for a client. -/
def isOf (c : ClientId) (x : String) (e : ClientId × Packet) : Bool := e.1 = c ∧ e.2.tx = x

/-- The packets of a transaction that are sent to a client. -/
def ownOf (c : ClientId) (x : String) (es : List (ClientId × Packet)) : List Packet :=
  (es.filter (isOf c x)).map Prod.snd

/-- The replies to an execute, from the first one to the one that ends it. -/
structure EndedStream (x : String) (ps : List Packet) : Prop where
  tagged : ∀ p ∈ ps, p.type = .respondExecute ∧ p.tx = x
  numbered : ∀ (i : Nat) (p : Packet), ps[i]? = some p → p.sequence.map UInt32.toNat = some i
  ends : ∀ (i : Nat) (p : Packet), ps[i]? = some p → (p.isTerminal = true ↔ i + 1 = ps.length)
  nonempty : ps ≠ []

/-- The broker without the note that a transaction is withheld from a client. -/
def forget (b : Broker) (c : ClientId) (x : String) : Broker :=
  { b with undeliverable := b.undeliverable.filter (· ≠ (c, x)) }

variable {c d : ClientId} {x : String} {b : Broker} {links : Links} {p : Packet} {v : Violation}
  {es : List (ClientId × Packet)} {ps front back : List Packet}

/-! ## A stream that passes -/

theorem passAll_of_fits (fit : ∀ p ∈ ps, ¬ TooLarge p) : passAll false ps = (false, ps) := by
  induction ps with
  | nil => rfl
  | cons p rest ih =>
    obtain ⟨first, later⟩ := List.forall_mem_cons.1 fit
    obtain ⟨bytes, framed⟩ := encode_of_not_tooLarge first
    rw [passAll, pass_fits framed, ih later]
    rfl

/-- Withholding lasts up to the packet that ends the transaction. -/
theorem passAll_to_end (goes : ∀ p ∈ ps, p.isTerminal = false) (ends : p.isTerminal = true) :
    passAll true (ps ++ [p]) = (false, []) := by
  induction ps with
  | nil => simp [passAll, pass_withheld, ends]
  | cons q rest ih =>
    obtain ⟨first, later⟩ := List.forall_mem_cons.1 goes
    rw [List.cons_append, passAll, pass_withheld, first]
    exact ih later

/-- What stands in a list that grew by one stood there before or is the last. -/
theorem place_append_one {i : Nat} {q : Packet} (here : (front ++ [p])[i]? = some q) :
    (front[i]? = some q ∧ i < front.length) ∨ i = front.length ∧ q = p := by
  rcases Nat.lt_or_ge i front.length with before | behind
  · rw [List.getElem?_append_left before] at here
    exact .inl ⟨here, before⟩
  · rw [List.getElem?_append_right behind] at here
    obtain ⟨inside, same⟩ := List.getElem?_eq_some_iff.1 here
    rw [List.length_singleton] at inside
    exact .inr ⟨by omega, by simpa using same.symm⟩

namespace EndedStream

theorem number (stream : EndedStream x (front ++ p :: back)) :
    p.sequence.map UInt32.toNat = some front.length :=
  stream.numbered front.length p (by simp)

/-- Before the last packet none is terminal. -/
theorem goes (stream : EndedStream x (front ++ p :: back)) (more : back ≠ []) :
    p.isTerminal = false := by
  have last := stream.ends front.length p (by simp)
  rw [List.length_append, List.length_cons] at last
  have behind := List.length_pos_iff.2 more
  by_contra terminal
  have := last.1 (by simpa using terminal)
  omega

theorem terminal (stream : EndedStream x (front ++ [p])) : p.isTerminal = true :=
  (stream.ends front.length p (by simp)).2 (by simp)

theorem front_goes (stream : EndedStream x (front ++ p :: back)) :
    ∀ q ∈ front, q.isTerminal = false := by
  intro q member
  obtain ⟨before, after, rfl⟩ := List.append_of_mem member
  rw [List.append_assoc] at stream
  exact stream.goes (by simp)

/-- What passes of a stream up to a packet that is too large. -/
theorem passAll_cut (stream : EndedStream x (front ++ p :: back)) (fit : ∀ q ∈ front, ¬ TooLarge q)
    (large : Frame.encode p = .error v) :
    passAll false (front ++ p :: back) = (false, front ++ [replacement p v]) := by
  have execute : p.type = .respondExecute := (stream.tagged p (by simp)).1
  rw [passAll_append, passAll_of_fits fit, passAll, pass_large large]
  cases List.eq_nil_or_concat back with
  | inl none =>
    subst none
    simp [passAll, opensStream, stream.terminal]
  | inr some =>
    obtain ⟨rest, last, rfl⟩ := some
    rw [List.concat_eq_append] at stream ⊢
    have opens : opensStream p = true := by simp [opensStream, execute, stream.goes (by simp)]
    have whole : front ++ p :: (rest ++ [last]) = (front ++ p :: rest) ++ [last] := by simp
    have silent : passAll true (rest ++ [last]) = (false, []) := by
      rw [whole] at stream
      exact passAll_to_end (fun q member => stream.front_goes q (by simp [member])) stream.terminal
    simp [opens, silent]

/-- With a failure in the place of a packet, what is before it is a stream that ends there. -/
theorem cut (stream : EndedStream x (front ++ p :: back)) {n : UInt32} (number : p.sequence = some n)
    (f : Fault) : EndedStream x (front ++ [.outputFault x n f]) where
  tagged q member := by
    rcases List.mem_append.1 member with before | last
    · exact stream.tagged q (List.mem_append_left _ before)
    · rw [List.mem_singleton.1 last]
      exact ⟨rfl, rfl⟩
  numbered i q here := by
    rcases place_append_one here with ⟨before, inside⟩ | ⟨rfl, rfl⟩
    · exact stream.numbered i q ((List.getElem?_append_left inside).trans before)
    · have own := stream.number
      rwa [number] at own
  ends i q here := by
    rw [List.length_append, List.length_singleton]
    rcases place_append_one here with ⟨before, inside⟩ | ⟨rfl, rfl⟩
    · rw [stream.front_goes q (List.mem_of_getElem? before)]
      exact ⟨fun ends => absurd ends Bool.false_ne_true, fun last => by omega⟩
    · rw [Packet.outputFault_isTerminal]
      exact ⟨fun _ => rfl, fun _ => rfl⟩
  nonempty := by simp

/-- The failure in the place of a packet is under its number. -/
theorem replacement_eq (stream : EndedStream x (front ++ p :: back)) (v : Violation) :
    ∃ n, p.sequence = some n ∧ replacement p v = .outputFault x n (.violation v) := by
  obtain ⟨execute, tx⟩ := stream.tagged p (by simp)
  obtain ⟨n, number, -⟩ := Option.map_eq_some_iff.1 stream.number
  exact ⟨n, number, by simp [replacement, execute, tx, number]⟩

end EndedStream

/-- Either all packets fit, or there is a first one that does not. -/
theorem fit_or_first (ps : List Packet) : (∀ p ∈ ps, ¬ TooLarge p) ∨
    ∃ front p back v, ps = front ++ p :: back ∧ (∀ q ∈ front, ¬ TooLarge q) ∧
      Frame.encode p = .error v := by
  induction ps with
  | nil => exact .inl (by simp)
  | cons p rest ih =>
    by_cases large : TooLarge p
    · obtain ⟨v, large⟩ := large
      exact .inr ⟨[], p, rest, v, rfl, by simp, large⟩
    · rcases ih with fit | ⟨front, q, back, v, rfl, fit, later⟩
      · exact .inl (List.forall_mem_cons.2 ⟨large, fit⟩)
      · exact .inr ⟨p :: front, q, back, v, rfl, List.forall_mem_cons.2 ⟨large, fit⟩, later⟩

/-- What passes of a stream is one, and when it is over nothing is withheld. -/
theorem EndedStream.passAll (stream : EndedStream x ps) :
    (passAll false ps).1 = false ∧ EndedStream x (passAll false ps).2 := by
  rcases fit_or_first ps with fit | ⟨front, p, back, v, rfl, fit, large⟩
  · rw [passAll_of_fits fit]
    exact ⟨rfl, stream⟩
  · obtain ⟨n, number, failure⟩ := stream.replacement_eq v
    rw [stream.passAll_cut fit large, failure]
    exact ⟨rfl, stream.cut number (.violation v)⟩

/-! ## What is sent of a stream -/

theorem Connected.faithful (linked : Connected links c) : Faithful links c where
  fits p reached := by
    cases framed : Frame.encode p with
    | ok bytes => exact ⟨bytes, rfl⟩
    | error v => simp [linked p, framed] at reached
  large p v large := by
    cases framed : Frame.encode p with
    | ok bytes => simp [linked p, framed] at large
    | error w => simpa [linked p, framed] using large

/-- An open link is lost only over an id that no frame can hold. -/
theorem Connected.not_unreached (linked : Connected links c)
    (id : (Bytes.ofText p.tx).length ≤ 65535) (sized : p.Addressable) : ¬ Unreached links c p := by
  rintro (⟨e, failed, other⟩ | ⟨v, e, large, failed⟩)
  · cases framed : Frame.encode p with
    | ok bytes => simp [linked p, framed] at failed
    | error v =>
      simp only [linked p, framed, Except.error.injEq] at failed
      exact other v failed.symm
  · have large := linked.faithful.large p v large
    obtain ⟨bytes, framed⟩ := encode_replacement id (sized.weight_lt id) large
    simp [linked (replacement p v), framed] at failed

theorem Connected.stays (linked : Connected links c)
    (ids : ∀ e ∈ es, e.1 = c → (Bytes.ofText e.2.tx).length ≤ 65535)
    (sized : ∀ e ∈ es, e.1 = c → e.2.Addressable) : .hangUp c ∉ (sendEach links es b).2 := by
  induction es generalizing b with
  | nil => exact List.not_mem_nil
  | cons e rest ih =>
    obtain ⟨d, p⟩ := e
    obtain ⟨id, ids⟩ := List.forall_mem_cons.1 ids
    obtain ⟨size, sized⟩ := List.forall_mem_cons.1 sized
    intro gone
    rcases List.mem_append.1 gone with first | later
    · obtain ⟨rfl, unreached⟩ := hangUp_send first
      exact linked.not_unreached (id rfl) (size rfl) unreached
    · exact ih ids sized later

/-- The packets of the transaction pass, the others are nothing to it. -/
theorem sendEach_relays (faithful : Faithful links c) (known : Table.has b.clients c)
    (kept : .hangUp c ∉ (sendEach links es b).2) :
    Relays c x b (ownOf c x es) (sendEach links es b) := by
  induction es generalizing b with
  | nil => exact .nothing (.refl c b) rfl rfl rfl
  | cons e rest ih =>
    obtain ⟨d, p⟩ := e
    have first : Relays c x b (ownOf c x [(d, p)]) (b.send links d p) := by
      by_cases own : d = c ∧ p.tx = x
      · obtain ⟨rfl, rfl⟩ := own
        simpa [ownOf, isOf] using send_own faithful known (kept_first kept)
      · simpa [ownOf, isOf, own] using send_other own (kept_first kept)
    have whole : ownOf c x ((d, p) :: rest) = ownOf c x [(d, p)] ++ ownOf c x rest := by
      simp [ownOf, ← List.map_append, ← List.filter_append]
    rw [whole]
    exact first.andThen (ih (first.stays.known known) (kept_second kept))

/-! ## What is sent of everything else -/

theorem forget_of_free (free : (c, x) ∉ b.undeliverable) : b.forget c x = b := by
  have all : b.undeliverable.filter (· ≠ (c, x)) = b.undeliverable := by
    refine List.filter_eq_self.2 fun key member => decide_eq_true ?_
    rintro rfl
    exact free member
  rw [forget, all]

theorem forget_removeClient (b : Broker) (c d : ClientId) (x : String) :
    (b.forget c x).removeClient d = ((b.removeClient d).1.forget c x, (b.removeClient d).2) := by
  have same : Table.has (b.forget c x).clients d = Table.has b.clients d := rfl
  unfold removeClient
  rw [same]
  split
  · simp only [forget, List.filter_filter, Bool.and_comm]
  · rfl

theorem forget_withhold (other : (d, p.tx) ≠ (c, x)) :
    (b.forget c x).withhold d p = (b.withhold d p).forget c x := by
  unfold withhold
  split
  · simp [forget, other]
  · rfl

/-- Whether a transaction is withheld makes no difference to what else is sent. -/
theorem forget_send (other : ¬ (d = c ∧ p.tx = x)) :
    (b.forget c x).send links d p =
      ((b.send links d p).1.forget c x, (b.send links d p).2) := by
  have key : (d, p.tx) ≠ (c, x) := fun same => other (by simpa using same)
  have noted : (d, p.tx) ∈ (b.forget c x).undeliverable ↔ (d, p.tx) ∈ b.undeliverable := by
    simp [forget, key]
  have known : Table.has (b.forget c x).clients d = Table.has b.clients d := rfl
  unfold send
  simp only [noted, known]
  split
  · split
    · simp only [forget, List.filter_filter, Bool.and_comm]
    · rfl
  · split
    · rfl
    · cases links d p with
      | ok done => rfl
      | error e =>
        cases e with
        | violation v =>
          have swap := forget_withhold (b := b) key
          unfold withhold at swap
          simp only [swap]
          cases links d (replacement p v) with
          | ok done => rfl
          | error e => exact forget_removeClient ..
        | _ => exact forget_removeClient ..

theorem forget_idem (b : Broker) (c : ClientId) (x : String) :
    (b.forget c x).forget c x = b.forget c x := by
  simp [forget, List.filter_filter]

/-- A packet of the transaction leaves nothing behind but the note that it is withheld. -/
theorem send_own_forget (known : Table.has b.clients c)
    (kept : .hangUp c ∉ (b.send links c p).2) :
    (b.send links c p).1.forget c p.tx = b.forget c p.tx ∧
      (b.send links c p).2.filter (fun e => !e.isOf c p.tx) = [] := by
  have noted : (b.withhold c p).forget c p.tx = b.forget c p.tx := by
    unfold withhold
    split
    · simp [forget]
    · rfl
  generalize outcome : b.send links c p = o at kept ⊢
  have sent := outcome ▸ send_sent links b c p
  cases sent with
  | last => exact ⟨b.forget_idem c p.tx, rfl⟩
  | more | unknown => exact ⟨rfl, rfl⟩
  | whole => exact ⟨rfl, by simp [Effect.isOf]⟩
  | replaced => exact ⟨noted, by simp [Effect.isOf, replacement_tx]⟩
  | lost => exact absurd (hangUp_of_known ((withhold_stays b p).known known)) kept
  | gone => exact absurd (hangUp_of_known known) kept

theorem send_other_effects (other : ¬ (d = c ∧ p.tx = x)) :
    (b.send links d p).2.filter (fun e => !e.isOf c x) = (b.send links d p).2 := by
  have hung (b : Broker) : (b.removeClient d).2.filter (fun e => !e.isOf c x) =
      (b.removeClient d).2 := by
    unfold removeClient
    split <;> rfl
  generalize outcome : b.send links d p = o
  have sent := outcome ▸ send_sent links b d p
  cases sent with
  | last | more | unknown => rfl
  | whole => simpa [Effect.isOf] using other
  | replaced => simpa [Effect.isOf, replacement_tx] using other
  | lost | gone => exact hung _

/-- Without the packets of the transaction, what is sent of the others is the same. -/
theorem sendEach_others (known : Table.has b.clients c)
    (kept : .hangUp c ∉ (sendEach links es b).2) :
    sendEach links (es.filter fun e => !isOf c x e) (b.forget c x) =
      ((sendEach links es b).1.forget c x,
        (sendEach links es b).2.filter fun e => !e.isOf c x) := by
  induction es generalizing b with
  | nil => rfl
  | cons e rest ih =>
    obtain ⟨d, p⟩ := e
    have later (still : Table.has (b.send links d p).1.clients c) := ih still (kept_second kept)
    by_cases own : d = c ∧ p.tx = x
    · obtain ⟨rfl, rfl⟩ := own
      obtain ⟨state, silent⟩ := send_own_forget known (kept_first kept)
      have later := later (send_stays (kept_first kept) known)
      rw [state] at later
      rw [List.filter_cons_of_neg (by simp [isOf]), later]
      simp [sendEach, andThen, silent]
    · have later := later ((send_other own (kept_first kept)).stays.known known)
      have foreign : isOf c x (d, p) = false := decide_eq_false own
      rw [List.filter_cons_of_pos (by simp [foreign]), sendEach, forget_send own]
      simp [sendEach, andThen, later, send_other_effects own]

/-! ## Main result -/

/-- What a client is sent when a stream of a transaction is among what is sent to all. -/
structure Heard (links : Links) (c : ClientId) (x : String) (es : List (ClientId × Packet))
    (b : Broker) (o : Outcome) : Prop where
  /-- The stream, if all of it fits; -/
  whole : (∀ p ∈ ownOf c x es, ¬ TooLarge p) → deliveredTo c x o.2 = ownOf c x es
  /-- else what is before the first packet that does not, and a failure under its number. -/
  cut : ∀ front p back v, ownOf c x es = front ++ p :: back → (∀ q ∈ front, ¬ TooLarge q) →
    Frame.encode p = .error v → ∃ n, p.sequence = some n ∧
      deliveredTo c x o.2 = front ++ [.outputFault x n (.violation v)]
  /-- In any case it is a stream, -/
  stream : EndedStream x (deliveredTo c x o.2)
  /-- nothing of the transaction is withheld any more, -/
  clear : (c, x) ∉ o.1.undeliverable
  /-- and what else is done, and the broker in the end, are as if the stream had not been. -/
  others : sendEach links (es.filter fun e => !isOf c x e) b =
    (o.1, o.2.filter fun e => !e.isOf c x)

/-- Whatever else is sent in between, to whom it may be: a client on an open link keeps it unless it is
sent a packet of an id that no frame can hold, and as long as it keeps it, it hears the stream whole or
cut short by one failure. -/
theorem stream_heard (linked : Connected links c) (known : Table.has b.clients c)
    (free : (c, x) ∉ b.undeliverable) (stream : EndedStream x (ownOf c x es)) :
    ((∀ e ∈ es, e.1 = c → (Bytes.ofText e.2.tx).length ≤ 65535) →
      (∀ e ∈ es, e.1 = c → e.2.Addressable) → .hangUp c ∉ (sendEach links es b).2) ∧
    (.hangUp c ∉ (sendEach links es b).2 → Heard links c x es b (sendEach links es b)) := by
  refine ⟨linked.stays, fun kept => ?_⟩
  have relays := sendEach_relays (x := x) linked.faithful known kept
  have passes : b.withholds c x = false := by simpa [withholds] using free
  have delivered := relays.delivered
  have withheld := relays.withheld
  rw [passes] at delivered withheld
  obtain ⟨ended, heard⟩ := stream.passAll
  have clear : (c, x) ∉ (sendEach links es b).1.undeliverable := by
    simpa [withholds] using withheld.trans ended
  constructor
  case whole =>
    intro fit
    rw [delivered, passAll_of_fits fit]
  case cut =>
    intro front p back v split fit large
    rw [split] at stream delivered
    obtain ⟨n, number, failure⟩ := stream.replacement_eq v
    exact ⟨n, number, by rw [delivered, stream.passAll_cut fit large, failure]⟩
  case stream => exact delivered ▸ heard
  case clear => exact clear
  case others =>
    have others := sendEach_others (x := x) known kept
    rwa [forget_of_free free, forget_of_free clear] at others

/-- Among answers to something else, a stream of which the first packet fits no frame. -/
def flooding : List (ClientId × Packet) :=
  [(0, .respondOk "u"), (0, Traffic.flood), (1, .output "t" 0 true .null), (0, .respondOk "v"),
    (0, Traffic.final)]

theorem flooding_stream : EndedStream "t" [Traffic.flood, Traffic.final] where
  tagged p member := by
    rcases List.mem_pair.1 member with rfl | rfl <;> exact ⟨rfl, rfl⟩
  numbered i p here := by
    match i, here with
    | 0, rfl | 1, rfl => rfl
  ends i p here := by
    match i, here with
    | 0, rfl => simp [Traffic.flood]
    | 1, rfl => simp [Traffic.final]
  nonempty := by simp

/-- The client hears a failure in the place of the stream, and the answers. -/
theorem stream_heard_flooding :
    TooLarge Traffic.flood ∧ ownOf 0 "t" flooding = [Traffic.flood, Traffic.final] ∧
      Heard (Traffic.links Traffic.everyone) 0 "t" flooding ⟨[(0, true)], .empty, []⟩
        (sendEach (Traffic.links Traffic.everyone) flooding ⟨[(0, true)], .empty, []⟩) := by
  have linked : Connected (Traffic.links Traffic.everyone) 0 := Traffic.connected rfl
  have ids : ∀ e ∈ flooding, e.1 = 0 → (Bytes.ofText e.2.tx).length ≤ 65535 := by
    simp only [flooding, List.forall_mem_cons]
    exact ⟨by decide, by decide, by decide, by decide, by decide, by simp⟩
  have sized : ∀ e ∈ flooding, e.1 = 0 → e.2.Addressable := by
    simp only [flooding, List.forall_mem_cons]
    exact ⟨fun _ => ⟨by decide, by decide⟩, fun _ => flood_addressable,
      fun _ => ⟨by decide, by decide⟩, fun _ => ⟨by decide, by decide⟩,
      fun _ => ⟨by decide, by decide⟩, by simp⟩
  have stream : EndedStream "t" (ownOf 0 "t" flooding) := flooding_stream
  have heard := stream_heard (b := ⟨[(0, true)], .empty, []⟩) linked rfl List.not_mem_nil stream
  exact ⟨⟨_, Traffic.encode_flood⟩, rfl, heard.2 (heard.1 ids sized)⟩

end Broker

end Patchbay
