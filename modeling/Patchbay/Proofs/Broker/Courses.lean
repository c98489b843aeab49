import Mathlib.Data.List.Pairwise
import Patchbay.Proofs.Broker.Coherence
import Patchbay.Proofs.Broker.Traffic

/-!
# Courses of traffic

Traffic in which links may open and close at any time. Every reply that was sent on answers a request
that was heard, and went to the client of the request too. When every id stands for one execute, its
last reply is sent on once, and nothing opens its stream again.
-/

namespace Patchbay

namespace Request

def tx : Request → String
  | .execute _ _ p => p.tx
  | .cancel _ tx => tx

/-- Whether a request is that of an execute under an id, of whatever client. -/
def runs (x : String) : Request → Bool
  | .execute _ _ p => p.tx = x
  | .cancel .. => false

variable {r : Request} {q : Packet}

/-- A reply carries the id of its request. -/
theorem tx_of_reply (reply : r.Continues q ∨ r.Settles q) : q.tx = r.tx := by
  cases r with
  | execute d t p => exact reply.elim (·.2.1) (·.2.1)
  | cancel d tx => exact reply.elim False.elim (·.2)

theorem runs_of_reply (reply : r.Continues q ∨ r.Settles q) {x : String} :
    r.runs x = true ↔ q.type = .respondExecute ∧ q.tx = x := by
  have tx := tx_of_reply reply
  cases r with
  | execute d t p =>
    have type : q.type = .respondExecute := reply.elim (·.1) (·.1)
    simp [runs, type, tx, Request.tx]
  | cancel d y =>
    have type : q.type = .respond := reply.elim False.elim (·.1)
    simp [runs, type]

/-- A reply to an execute goes to the subscribers of its target, any other only to its client. -/
theorem type_or_target_of_reply (reply : r.Continues q ∨ r.Settles q) :
    q.type = .respondExecute ∨ r.target? = none := by
  cases r with
  | execute d t p => exact .inl (reply.elim (·.1) (·.1))
  | cancel d tx => exact .inr rfl

end Request

namespace Broker

/-- The last reply to an execute. -/
def Final (p : Packet) : Prop := p.type = .respondExecute ∧ p.isTerminal = true

instance (p : Packet) : Decidable (Final p) := inferInstanceAs (Decidable (_ ∧ _))

variable {c : ClientId} {x : String} {b : Broker} {p : Packet} {r : Reply}

theorem not_final_of_opensStream (opens : opensStream p) : ¬ Final p := by
  rintro ⟨-, ends⟩
  simp [(opensStream_iff.1 opens).2] at ends

/-- A reply that is sent to its client is the last one under an id. -/
def finishes (x : String) (o : ClientId × Reply) : Bool :=
  decide (o.1 = o.2.origin ∧ o.2.packet.tx = x ∧ Final o.2.packet)

/-- Among those it is offered to, the client of a reply stands once. -/
theorem countP_offers (b : Broker) (r : Reply) (x : String) :
    (b.offers r).countP (finishes x) = if r.packet.tx = x ∧ Final r.packet then 1 else 0 := by
  obtain ⟨others, all, apart⟩ := recipients_origin b.subscriptions r.origin r.target
  have rest : (others.map (·, r)).countP (finishes x) = 0 := by
    refine List.countP_eq_zero.2 fun o member => ?_
    obtain ⟨d, other, rfl⟩ := List.mem_map.1 member
    have foreign : d ≠ r.origin := by
      rintro rfl
      exact apart other
    simp [finishes, foreign]
  rw [offers, all, List.map_cons, List.countP_cons, rest]
  simp [finishes]

theorem origin_mem_offers (b : Broker) (r : Reply) : (r.origin, r) ∈ b.offers r := by
  obtain ⟨others, all, -⟩ := recipients_origin b.subscriptions r.origin r.target
  exact mem_offers.2 ⟨all ▸ List.mem_cons_self, rfl⟩

theorem eq_origin_of_mem_offers {s : Reply} (target : r.target = none)
    (member : (c, s) ∈ b.offers r) : c = s.origin ∧ s = r := by
  obtain ⟨here, rfl⟩ := mem_offers.1 member
  rw [target] at here
  exact ⟨List.mem_singleton.1 here, rfl⟩

end Broker

namespace Traffic

open Broker (Final finishes opensStream)

variable {c d : ClientId} {x : String} {w k : Traffic} {sockets : ClientId → Socket}

/-- Any course of traffic. A client is accepted once. -/
inductive Course : Traffic → Prop where
  | start : Course .start
  | step {sockets : ClientId → Socket} {w k : Traffic} (before : Course w) (step : Step sockets w k)
      (fresh : ∀ d, k.heard = w.heard ++ [.accepted d] → .accepted d ∉ w.heard) : Course k

/-- Two packets are of different transactions, unless one cancels what its client asked for. -/
def Apart : Event → Event → Prop
  | .packet c p, .packet d q => p.tx = q.tx → c = d ∧ (p.type = .cancel ∨ q.type = .cancel)
  | _, _ => True

/-- Every id stands for one transaction, whoever uses it. -/
def UniqueIds (heard : List Event) : Prop := heard.Pairwise Apart

/-- Whether an event is an execute under an id, of whatever client. -/
def starts (x : String) : Event → Bool
  | .packet _ p => decide (p.tx = x) && p.type == .execute
  | _ => false

/-! ## Unique ids -/

section

variable {heard : List Event} {p q : Packet}

instance : Std.Symm Apart where
  symm e f apart := by
    cases e <;> cases f <;> try trivial
    intro same
    obtain ⟨rfl, cancels⟩ := apart same.symm
    exact ⟨rfl, cancels.symm⟩

/-- Packets under one id are of one client; they are the same, or one is a cancel. -/
theorem UniqueIds.shared (unique : UniqueIds heard) (first : .packet c p ∈ heard)
    (second : .packet d q ∈ heard) (same : p.tx = q.tx) :
    c = d ∧ (p = q ∨ p.type = .cancel ∨ q.type = .cancel) := by
  by_cases equal : Event.packet c p = .packet d q
  · obtain ⟨rfl, rfl⟩ := Event.packet.inj equal
    exact ⟨rfl, .inl rfl⟩
  · obtain ⟨client, cancels⟩ := List.Pairwise.forall unique first second equal same
    exact ⟨client, .inr cancels⟩

theorem UniqueIds.starts_le (unique : UniqueIds heard) (x : String) :
    heard.countP (starts x) ≤ 1 := by
  induction heard with
  | nil => exact Nat.zero_le 1
  | cons e rest ih =>
    obtain ⟨apart, later⟩ := List.pairwise_cons.1 unique
    have few := ih later
    rw [List.countP_cons]
    split
    · next starts_e =>
      have none : rest.countP (starts x) = 0 := by
        refine List.countP_eq_zero.2 fun f member starts_f => ?_
        cases e with
        | packet c p =>
          cases f with
          | packet d q =>
            simp only [starts, Bool.and_eq_true, decide_eq_true_eq, beq_iff_eq] at starts_e starts_f
            obtain ⟨-, cancels⟩ := apart _ member (starts_e.1.trans starts_f.1.symm)
            rcases cancels with cancels | cancels
            · simp [starts_e.2] at cancels
            · simp [starts_f.2] at cancels
          | _ => cases starts_f
        | _ => cases starts_e
      omega
    · exact few

end

/-! ## The books of a course -/

/-- What is pending and what was offered, against what was heard. -/
structure Books (pending : List Request) (heard : List Event)
    (offers : List (ClientId × Reply)) : Prop where
  asked : ∀ r ∈ pending, ∃ p, .packet r.origin p ∈ heard ∧ p.tx = r.tx ∧
    (∀ x, r.runs x → p.type = .execute)
  origin : ∀ c r, (c, r) ∈ offers → (r.origin, r) ∈ offers
  answered : ∀ c r, (c, r) ∈ offers → ∃ p, .packet r.origin p ∈ heard ∧ p.tx = r.packet.tx ∧
    (r.packet.type = .respondExecute → p.type = .execute)
  private_ : ∀ c r, (c, r) ∈ offers → r.packet.type = .respondExecute ∨ c = r.origin
  balance : ∀ x, pending.countP (·.runs x) + offers.countP (finishes x) ≤ heard.countP (starts x)
  begun : ∀ c r, (c, r) ∈ offers → r.packet.type = .respondExecute →
    (∃ s ∈ pending, s.runs r.packet.tx) ∨
      ∃ d s, (d, s) ∈ offers ∧ s.packet.tx = r.packet.tx ∧ Final s.packet
  ordered : offers.Pairwise fun o o' =>
    o.2.packet.tx = o'.2.packet.tx → Final o.2.packet → ¬ opensStream o'.2.packet

namespace Books

variable {pending front back : List Request} {heard : List Event} {r : Request} {q : Packet}
  {offers : List (ClientId × Reply)} {e : Event} {b : Broker} {serial : Nat}

theorem start : Books [] [] [] := by
  constructor <;> simp

/-- While its execute is pending, no last reply was offered. -/
theorem not_final (h : Books pending heard offers) (unique : UniqueIds heard) (asked : r ∈ pending)
    (runs : r.runs x) (member : (c, s) ∈ offers) (tx : s.packet.tx = x) : ¬ Final s.packet := by
  intro final
  have here : 0 < pending.countP (·.runs x) := List.countP_pos_iff.2 ⟨r, asked, runs⟩
  have there : 0 < offers.countP (finishes x) :=
    List.countP_pos_iff.2 ⟨_, h.origin c s member, by simp [finishes, tx, final]⟩
  have most := h.balance x
  have once := unique.starts_le x
  omega

theorem idle (h : Books pending heard offers) : Books pending (heard ++ [e]) offers := by
  refine { h with asked := fun r member => ?_, answered := fun c r member => ?_, balance := ?_ }
  · obtain ⟨p, packet, rest⟩ := h.asked r member
    exact ⟨p, List.mem_append_left _ packet, rest⟩
  · obtain ⟨p, packet, rest⟩ := h.answered c r member
    exact ⟨p, List.mem_append_left _ packet, rest⟩
  · intro x
    have most := h.balance x
    rw [List.countP_append]
    omega

/-- A packet asks for something. -/
theorem ask (h : Books pending heard offers) {p : Packet} (packet : e = .packet r.origin p)
    (tx : p.tx = r.tx) (type : ∀ x, r.runs x → p.type = .execute) :
    Books (pending ++ [r]) (heard ++ [e]) offers := by
  have idle : Books pending (heard ++ [e]) offers := h.idle
  refine { idle with asked := ?_, balance := ?_, begun := ?_ }
  · intro s member
    rcases List.mem_append.1 member with before | here
    · exact idle.asked s before
    · obtain rfl := List.mem_singleton.1 here
      exact ⟨p, by simp [packet], tx, type⟩
  · intro x
    have most := h.balance x
    have one : (if r.runs x then 1 else 0) ≤ if starts x e then 1 else 0 := by
      split
      · next runs =>
        have same : r.tx = x := by
          cases r with
          | execute d t p => simpa [Request.runs, Request.tx] using runs
          | cancel d tx => cases runs
        simp [packet, starts, tx, same, type x runs]
      · exact Nat.zero_le _
    simp only [List.countP_append, List.countP_singleton]
    omega
  · intro c s member execute
    rcases h.begun c s member execute with ⟨r', pending, runs⟩ | ended
    · exact .inl ⟨r', List.mem_append_left _ pending, runs⟩
    · exact .inr ended

/-- A reply to something that is pending is offered. What stays pending is given. -/
theorem reply (h : Books pending heard offers) (unique : UniqueIds heard) (asked : r ∈ pending)
    (replies : r.Continues q ∨ r.Settles q) {left : List Request} (fewer : left ⊆ pending)
    (balance : ∀ x, left.countP (·.runs x) + (if q.tx = x ∧ Final q then 1 else 0) ≤
      pending.countP (·.runs x))
    (stays : ∀ x, ∀ s ∈ pending, s.runs x → (∃ s ∈ left, s.runs x) ∨ q.tx = x ∧ Final q) :
    Books left heard (offers ++ b.offers ⟨serial, r.origin, r.target?, q⟩) := by
  have tx := Request.tx_of_reply replies
  have new {c : ClientId} {s : Reply} (member : (c, s) ∈ b.offers ⟨serial, r.origin, r.target?, q⟩) :
      s = ⟨serial, r.origin, r.target?, q⟩ := (Broker.mem_offers.1 member).2
  have mine := b.origin_mem_offers ⟨serial, r.origin, r.target?, q⟩
  refine ⟨fun s member => h.asked s (fewer member), ?_, ?_, ?_, ?_, ?_, ?_⟩
  · intro c s member
    rcases List.mem_append.1 member with before | here
    · exact List.mem_append_left _ (h.origin c s before)
    · obtain rfl := new here
      exact List.mem_append_right _ mine
  · intro c s member
    rcases List.mem_append.1 member with before | here
    · exact h.answered c s before
    · obtain rfl := new here
      obtain ⟨p, packet, same, type⟩ := h.asked r asked
      refine ⟨p, packet, same.trans tx.symm, fun execute => type q.tx ?_⟩
      exact (Request.runs_of_reply replies).2 ⟨execute, rfl⟩
  · intro c s member
    rcases List.mem_append.1 member with before | here
    · exact h.private_ c s before
    · rcases Request.type_or_target_of_reply replies with execute | target
      · obtain rfl := new here
        exact .inl execute
      · exact .inr (Broker.eq_origin_of_mem_offers target here).1
  · intro x
    have most := h.balance x
    have less := balance x
    rw [List.countP_append, Broker.countP_offers]
    dsimp only
    omega
  · have old (y : String) (s : Request) (member : s ∈ pending) (runs : s.runs y) :
        (∃ s ∈ left, s.runs y) ∨ ∃ d s, (d, s) ∈ offers ++ b.offers ⟨serial, r.origin, r.target?, q⟩ ∧
          s.packet.tx = y ∧ Final s.packet := by
      rcases stays y s member runs with kept | ⟨same, final⟩
      · exact .inl kept
      · exact .inr ⟨_, _, List.mem_append_right _ mine, same, final⟩
    intro c s member execute
    rcases List.mem_append.1 member with before | here
    · rcases h.begun c s before execute with ⟨s', pending, runs⟩ | ⟨d, s', there, same⟩
      · exact old _ s' pending runs
      · exact .inr ⟨d, s', List.mem_append_left _ there, same⟩
    · obtain rfl := new here
      exact old _ r asked ((Request.runs_of_reply replies).2 ⟨execute, rfl⟩)
  · refine List.pairwise_append.2 ⟨h.ordered, ?_, ?_⟩
    · refine List.pairwise_iff_forall_sublist.2 fun {o o'} sub same final opens => ?_
      have first := new (c := o.1) (s := o.2) (sub.subset (by simp))
      have second := new (c := o'.1) (s := o'.2) (sub.subset (by simp))
      rw [first] at final
      rw [second] at opens
      exact Broker.not_final_of_opensStream opens final
    · rintro ⟨c, s⟩ before ⟨d, s'⟩ here same final opens
      obtain rfl := new here
      have execute := (Broker.opensStream_iff.1 opens).1
      exact h.not_final unique asked ((Request.runs_of_reply replies).2 ⟨execute, rfl⟩) before same
        final

theorem more (h : Books pending heard offers) (unique : UniqueIds heard) (asked : r ∈ pending)
    (continues : r.Continues q) :
    Books pending heard (offers ++ b.offers ⟨serial, r.origin, r.target?, q⟩) := by
  have goes : ¬ Final q := by
    rintro ⟨-, ends⟩
    cases r with
    | execute d t p => simp [continues.2.2] at ends
    | cancel d tx => cases continues
  refine h.reply unique asked (.inl continues) (List.Subset.refl _) (fun x => ?_)
    fun x s member runs => .inl ⟨s, member, runs⟩
  simp [goes]

theorem last (h : Books (front ++ r :: back) heard offers) (unique : UniqueIds heard)
    (settles : r.Settles q) :
    Books (front ++ back) heard (offers ++ b.offers ⟨serial, r.origin, r.target?, q⟩) := by
  have final {x : String} : r.runs x = true ↔ q.tx = x ∧ Final q := by
    rw [Request.runs_of_reply (.inr settles)]
    cases r with
    | execute d t p => simp [Final, settles.1, settles.2.2]
    | cancel d tx => simp [Final, settles.1]
  refine h.reply unique (by simp) (.inr settles) ?_ (fun x => ?_) fun x s member runs => ?_
  · exact ((List.sublist_cons_self r back).append_left front).subset
  · simp only [List.countP_append, List.countP_cons, final]
    omega
  · by_cases same : s = r
    · exact .inr (final.1 (same ▸ runs))
    · refine .inl ⟨s, ?_, runs⟩
      simpa [same] using member

end Books

/-- What an event asks for is asked by its packet. -/
theorem packet_of_ask {b : Broker} {e : Event} {r : Request} (asks : b.ask? e = some r) :
    ∃ p, e = .packet r.origin p ∧ p.tx = r.tx ∧ ∀ x, r.runs x → p.type = .execute := by
  cases e with
  | accepted d => cases asks
  | closed d => cases asks
  | packet d p =>
    obtain ⟨connected, found, asks⟩ := Option.bind_eq_some_iff.1 asks
    split at asks
    · next type =>
      cases asks
      exact ⟨p, rfl, rfl, fun _ _ => type⟩
    · cases asks
      exact ⟨p, rfl, rfl, fun _ runs => by cases runs⟩
    · cases asks

namespace Course

/-- Only what comes in is heard. -/
theorem unique_before (step : Step sockets w k) (unique : UniqueIds k.heard) :
    UniqueIds w.heard := unique.sublist step.heard.sublist

/-- When every id stands for one transaction, the books are in order. -/
theorem books (course : Course w) (unique : UniqueIds w.heard) :
    Books w.pending w.heard w.offers := by
  induction course with
  | start => exact .start
  | @step sockets w k before step fresh ih =>
    have h := ih (unique_before step unique)
    cases step with
    | more serial asked continues => exact h.more unique asked continues
    | last serial asked settles => exact (asked ▸ h).last unique settles
    | event machineOpen e order =>
      have asks := Broker.requests_handle (links sockets) machineOpen w.broker e
      cases asked : w.broker.ask? e with
      | none =>
        have quiet : Books w.pending (w.heard ++ [e]) w.offers := h.idle
        simpa [event, instead, asks, asked] using quiet
      | some r =>
        obtain ⟨p, packet, tx, type⟩ := packet_of_ask asked
        have pending : Books (w.pending ++ [r]) (w.heard ++ [e]) w.offers := h.ask packet tx type
        cases machineOpen with
        | true => simpa [event, instead, asks, asked] using pending
        | false =>
          have settled : Books (w.pending ++ []) (w.heard ++ [e])
              (w.offers ++ w.broker.offers (Broker.unavailable r)) := by
            rw [unavailable_eq]
            exact pending.last unique (unavailable_settles r)
          simpa [event, instead, asks, asked] using settled

end Course

end Traffic

end Patchbay
