import Mathlib.Algebra.Order.Group.Multiset
import Patchbay.Machine

/-!
# The ledger of a machine

A ledger keeps what a machine owes: the requests it took, the tickets that are still to be answered
and the replies that were sent. It knows neither tasks nor components. Its steps are the three ways
in which the account changes: an execute adds a ticket, a cancel is answered at once, and a ticket
is paid for with replies, by which it advances or is used up.

The account is sound when the replies to each execute are what its ticket paid so far, and what is
left of that ticket is what is held under its number. Every step keeps a sound account sound.
-/

namespace Patchbay

namespace Ticket

/-- The ticket of an execute that is taken as number `serial`. -/
def issue (serial : Nat) (origin : ClientId) (target : Target) (packet : Packet) : Ticket :=
  ⟨serial, origin, packet.tx, target, 0⟩

/-- The replies for outputs of which none is the last. -/
def outputs (t : Ticket) : List Value → List Reply
  | [] => []
  | v :: rest => (t.partialReply v).1 :: outputs (t.partialReply v).2 rest

/-- The ticket that is left behind these outputs. -/
def after (t : Ticket) : List Value → Ticket
  | [] => t
  | v :: rest => after (t.partialReply v).2 rest

/-- The replies that use a ticket up. -/
inductive Last (t : Ticket) : Reply → Prop where
  | done (v : Value) : Last t (t.done v)
  | fail (f : Fault) : Last t (t.fail f)

theorem outputs_append (t : Ticket) (vs ws : List Value) :
    t.outputs (vs ++ ws) = t.outputs vs ++ (t.after vs).outputs ws := by
  induction vs generalizing t with
  | nil => rfl
  | cons v rest ih => simp only [List.cons_append, outputs, after, ih]

theorem after_append (t : Ticket) (vs ws : List Value) :
    t.after (vs ++ ws) = (t.after vs).after ws := by
  induction vs generalizing t with
  | nil => rfl
  | cons v rest ih => simp only [List.cons_append, after, ih]

/-- Outputs move a ticket's sequence number on, and nothing else of it. -/
theorem after_eq (t : Ticket) (vs : List Value) :
    t.after vs = { t with sequence := t.sequence + UInt32.ofNat vs.length } := by
  induction vs generalizing t with
  | nil => simp [after]
  | cons v rest ih =>
    rw [after, ih]
    simp only [partialReply, List.length_cons, UInt32.ofNat_add]
    congr 1
    rw [UInt32.add_assoc, UInt32.add_comm 1]
    rfl

@[simp] theorem after_serial (t : Ticket) (vs : List Value) : (t.after vs).serial = t.serial := by
  rw [after_eq]

/-- The output at a position carries the ticket's number moved on by that position. -/
theorem outputs_getElem? (t : Ticket) (vs : List Value) (i : Nat) :
    (t.outputs vs)[i]? =
      vs[i]?.map fun v => t.reply (.output t.tx (t.sequence + UInt32.ofNat i) false v) := by
  induction vs generalizing t i with
  | nil => simp [outputs]
  | cons v rest ih =>
    cases i with
    | zero => simp [outputs, partialReply]
    | succ i =>
      simp only [outputs, List.getElem?_cons_succ, ih]
      simp only [partialReply, reply, UInt32.ofNat_add]
      congr 1
      funext w
      rw [UInt32.add_assoc, UInt32.add_comm 1]
      rfl

@[simp] theorem outputs_length (t : Ticket) (vs : List Value) :
    (t.outputs vs).length = vs.length := by
  induction vs generalizing t with
  | nil => rfl
  | cons v rest ih => simp [outputs, ih]

theorem outputs_serial (t : Ticket) (vs : List Value) :
    ∀ r ∈ t.outputs vs, r.serial = t.serial := by
  induction vs generalizing t with
  | nil => simp [outputs]
  | cons v rest ih =>
    intro r member
    rcases List.mem_cons.1 member with rfl | later
    · rfl
    · exact ih (t.partialReply v).2 r later

theorem Last.serial {t : Ticket} {r : Reply} (h : t.Last r) : r.serial = t.serial := by
  cases h <;> rfl

/-! ## Paying with a ticket -/

/-- What can be paid with a ticket, and what is left of it. -/
inductive Spend (t : Ticket) : List Reply → Multiset Ticket → Prop where
  | partials (vs : List Value) : Spend t (t.outputs vs) {t.after vs}
  | ending (vs : List Value) {r : Reply} (last : (t.after vs).Last r) :
      Spend t (t.outputs vs ++ [r]) 0

theorem Spend.none (t : Ticket) : t.Spend [] {t} := .partials []

theorem Spend.last {t : Ticket} {r : Reply} (h : t.Last r) : t.Spend [r] 0 := .ending [] h

/-- What is left of a ticket can be paid with in its turn. -/
theorem Spend.trans {t next : Ticket} {rs more : List Reply} {left : Multiset Ticket}
    (first : t.Spend rs {next}) (second : next.Spend more left) : t.Spend (rs ++ more) left := by
  generalize rest : ({next} : Multiset Ticket) = held at first
  cases first with
  | ending vs last => exact absurd rest (Multiset.singleton_ne_zero next)
  | partials vs =>
    obtain rfl := Multiset.singleton_inj.1 rest
    cases second with
    | partials ws =>
      rw [← outputs_append, ← after_append]
      exact .partials (vs ++ ws)
    | ending ws last =>
      rw [← List.append_assoc, ← outputs_append]
      rw [← after_append] at last
      exact .ending (vs ++ ws) last

theorem Spend.serial {t : Ticket} {rs : List Reply} {left : Multiset Ticket}
    (h : t.Spend rs left) : (∀ r ∈ rs, r.serial = t.serial) ∧ ∀ u ∈ left, u.serial = t.serial := by
  cases h with
  | partials vs =>
    refine ⟨outputs_serial t vs, fun u member => ?_⟩
    rw [Multiset.mem_singleton.1 member, after_serial]
  | ending vs last =>
    refine ⟨fun r member => ?_, fun u member => absurd member (Multiset.notMem_zero u)⟩
    rcases List.mem_append.1 member with output | final
    · exact outputs_serial t vs r output
    · rw [List.mem_singleton.1 final, last.serial, after_serial]

/-- At most one ticket is left of one. -/
theorem Spend.card_le_one {t : Ticket} {rs : List Reply} {left : Multiset Ticket}
    (h : t.Spend rs left) : left.card ≤ 1 := by
  cases h <;> simp

end Ticket

/-- Some replies are sent, and the tickets that are held change as these cost. -/
inductive Pays : Multiset Ticket → List Reply → Multiset Ticket → Prop where
  | nothing (held : Multiset Ticket) : Pays held [] held
  | spend {t : Ticket} {rs : List Reply} {left : Multiset Ticket} (paid : t.Spend rs left)
      (others : Multiset Ticket) : Pays ({t} + others) rs (left + others)

namespace Pays

theorem alone {t : Ticket} {rs : List Reply} {left : Multiset Ticket} (paid : t.Spend rs left) :
    Pays {t} rs left := by simpa using Pays.spend paid 0

/-- Other tickets do not matter. -/
theorem frame {held left : Multiset Ticket} {rs : List Reply} (h : Pays held rs left)
    (others : Multiset Ticket) : Pays (held + others) rs (left + others) := by
  cases h with
  | nothing => exact .nothing _
  | spend paid rest =>
    rw [add_assoc, add_assoc]
    exact .spend paid (rest + others)

end Pays

/-! ## The account -/

structure Ledger where
  asked : List Request
  held : Multiset Ticket
  replies : List Reply

namespace Ledger

inductive Step : Ledger → Ledger → Prop where
  | execute (asked : List Request) (held : Multiset Ticket) (replies : List Reply)
      (origin : ClientId) (target : Target) (packet : Packet) :
      Step ⟨asked, held, replies⟩
        ⟨asked ++ [.execute origin target packet],
          {Ticket.issue asked.length origin target packet} + held, replies⟩
  | cancel (asked : List Request) (held : Multiset Ticket) (replies : List Reply)
      (origin : ClientId) (tx : String) (r : Reply) (serial : r.serial = asked.length) :
      Step ⟨asked, held, replies⟩ ⟨asked ++ [.cancel origin tx], held, replies ++ [r]⟩
  | pay (asked : List Request) {held left : Multiset Ticket} (replies : List Reply)
      {rs : List Reply} (paid : Pays held rs left) :
      Step ⟨asked, held, replies⟩ ⟨asked, left, replies ++ rs⟩

/-- The replies to the request with a number. -/
def repliesTo (replies : List Reply) (n : Nat) : List Reply :=
  replies.filter fun r => r.serial = n

/-- What is held under a number. -/
def heldFor (held : Multiset Ticket) (n : Nat) : Multiset Ticket :=
  held.filter fun t => t.serial = n

structure Sound (l : Ledger) : Prop where
  owed : ∀ t ∈ l.held, ∃ origin target packet,
    l.asked[t.serial]? = some (.execute origin target packet)
  replied : ∀ r ∈ l.replies, r.serial < l.asked.length
  spent : ∀ (n : Nat) (origin : ClientId) (target : Target) (packet : Packet),
    l.asked[n]? = some (.execute origin target packet) →
      (Ticket.issue n origin target packet).Spend (repliesTo l.replies n) (heldFor l.held n)

theorem Sound.serial_lt {l : Ledger} (h : l.Sound) {t : Ticket} (member : t ∈ l.held) :
    t.serial < l.asked.length := by
  obtain ⟨origin, target, packet, asked⟩ := h.owed t member
  exact (List.getElem?_eq_some_iff.1 asked).1

theorem sound_empty : Sound ⟨[], 0, []⟩ :=
  ⟨fun t member => absurd member (Multiset.notMem_zero t), by simp, by simp⟩

theorem heldFor_eq_zero {held : Multiset Ticket} {n : Nat} (h : ∀ t ∈ held, t.serial ≠ n) :
    heldFor held n = 0 := Multiset.filter_eq_nil.2 h

theorem repliesTo_eq_nil {replies : List Reply} {n : Nat} (h : ∀ r ∈ replies, r.serial ≠ n) :
    repliesTo replies n = [] := by
  refine List.filter_eq_nil_iff.2 fun r member => ?_
  simpa using h r member

@[simp] theorem heldFor_add (a b : Multiset Ticket) (n : Nat) :
    heldFor (a + b) n = heldFor a n + heldFor b n := Multiset.filter_add ..

@[simp] theorem repliesTo_append (a b : List Reply) (n : Nat) :
    repliesTo (a ++ b) n = repliesTo a n ++ repliesTo b n := List.filter_append ..

theorem heldFor_eq_self {held : Multiset Ticket} {n : Nat} (h : ∀ t ∈ held, t.serial = n) :
    heldFor held n = held := Multiset.filter_eq_self.2 h

theorem repliesTo_eq_self {replies : List Reply} {n : Nat} (h : ∀ r ∈ replies, r.serial = n) :
    repliesTo replies n = replies := by
  refine List.filter_eq_self.2 fun r member => ?_
  simpa using h r member

/-- Asking once more leaves the earlier requests as they were. -/
private theorem asked_before {asked : List Request} {q q' : Request} {n : Nat}
    (h : (asked ++ [q])[n]? = some q') :
    asked[n]? = some q' ∧ n < asked.length ∨ n = asked.length ∧ q = q' := by
  rcases Nat.lt_trichotomy n asked.length with earlier | rfl | later
  · rw [List.getElem?_append_left earlier] at h
    exact .inl ⟨h, earlier⟩
  · simp only [List.getElem?_concat_length, Option.some.injEq] at h
    exact .inr ⟨rfl, h⟩
  · rw [List.getElem?_eq_none (by simp; omega)] at h
    cases h

private theorem owed_append {asked : List Request} {t : Ticket} (q : Request)
    (h : ∃ origin target packet, asked[t.serial]? = some (.execute origin target packet)) :
    ∃ origin target packet, (asked ++ [q])[t.serial]? = some (.execute origin target packet) := by
  obtain ⟨origin, target, packet, found⟩ := h
  have inside := (List.getElem?_eq_some_iff.1 found).1
  exact ⟨origin, target, packet, (List.getElem?_append_left inside).trans found⟩

private theorem sound_execute {asked : List Request} {held : Multiset Ticket}
    {replies : List Reply} (h : Sound ⟨asked, held, replies⟩) (origin : ClientId)
    (target : Target) (packet : Packet) :
    Sound ⟨asked ++ [.execute origin target packet],
      {Ticket.issue asked.length origin target packet} + held, replies⟩ := by
  refine ⟨fun t member => ?_, fun r member => ?_, fun n o g p found => ?_⟩
  · rcases Multiset.mem_add.1 member with new | old
    · rw [Multiset.mem_singleton.1 new]
      exact ⟨origin, target, packet, List.getElem?_concat_length⟩
    · exact owed_append _ (h.owed t old)
  · have := h.replied r member
    simp only [List.length_append, List.length_singleton] at this ⊢
    omega
  · simp only [heldFor_add]
    rcases asked_before found with ⟨before, earlier⟩ | ⟨rfl, same⟩
    · have other : heldFor {Ticket.issue asked.length origin target packet} n = 0 := by
        refine heldFor_eq_zero fun t member => ?_
        rw [Multiset.mem_singleton.1 member]
        exact Nat.ne_of_gt earlier
      rw [other, zero_add]
      exact h.spent n o g p before
    · cases same
      have fresh : heldFor held asked.length = 0 :=
        heldFor_eq_zero fun t member => Nat.ne_of_lt (h.serial_lt member)
      have silent : repliesTo replies asked.length = [] :=
        repliesTo_eq_nil fun r member => Nat.ne_of_lt (h.replied r member)
      rw [fresh, silent, add_zero, heldFor_eq_self]
      · exact .none _
      · intro t member
        rw [Multiset.mem_singleton.1 member]
        rfl

private theorem sound_cancel {asked : List Request} {held : Multiset Ticket}
    {replies : List Reply} (h : Sound ⟨asked, held, replies⟩) (origin : ClientId) (tx : String)
    {r : Reply} (serial : r.serial = asked.length) :
    Sound ⟨asked ++ [.cancel origin tx], held, replies ++ [r]⟩ := by
  refine ⟨fun t member => owed_append _ (h.owed t member), fun s member => ?_,
    fun n o g p found => ?_⟩
  · simp only [List.length_append, List.length_singleton]
    rcases List.mem_append.1 member with old | new
    · have := h.replied s old
      simp only at this
      omega
    · rw [List.mem_singleton.1 new, serial]
      omega
  · rcases asked_before found with ⟨before, earlier⟩ | ⟨-, different⟩
    · have other : repliesTo [r] n = [] := by
        refine repliesTo_eq_nil fun s member => ?_
        rw [List.mem_singleton.1 member, serial]
        exact Nat.ne_of_gt earlier
      simp only [repliesTo_append, other, List.append_nil]
      exact h.spent n o g p before
    · cases different

/-- A ticket that is held is all that is left of what was issued under its number. -/
private theorem sound_spend {asked : List Request} {t : Ticket} {others : Multiset Ticket}
    {replies rs : List Reply} {left : Multiset Ticket} (h : Sound ⟨asked, {t} + others, replies⟩)
    (paid : t.Spend rs left) : Sound ⟨asked, left + others, replies ++ rs⟩ := by
  have held : t ∈ ({t} + others : Multiset Ticket) := by simp
  obtain ⟨repliesSerial, leftSerial⟩ := paid.serial
  refine ⟨fun u member => ?_, fun r member => ?_, fun n o g p found => ?_⟩
  · rcases Multiset.mem_add.1 member with mine | other
    · rw [leftSerial u mine]
      exact h.owed t held
    · exact h.owed u (Multiset.mem_add.2 (.inr other))
  · rcases List.mem_append.1 member with old | new
    · exact h.replied r old
    · rw [repliesSerial r new]
      exact h.serial_lt held
  · have before := h.spent n o g p found
    simp only [heldFor_add, repliesTo_append] at before ⊢
    by_cases mine : t.serial = n
    · have own : heldFor {t} n = {t} :=
        heldFor_eq_self fun u member => by rw [Multiset.mem_singleton.1 member, mine]
      rw [own] at before
      rw [repliesTo_eq_self fun r member => (repliesSerial r member).trans mine,
        heldFor_eq_self fun u member => (leftSerial u member).trans mine]
      have none : heldFor others n = 0 := by
        have size := before.card_le_one
        rw [Multiset.card_add, Multiset.card_singleton] at size
        exact Multiset.card_eq_zero.1 (by omega)
      rw [none, add_zero] at before ⊢
      exact before.trans paid
    · have absent : heldFor {t} n = 0 :=
        heldFor_eq_zero fun u member => by rwa [Multiset.mem_singleton.1 member]
      have silent : repliesTo rs n = [] :=
        repliesTo_eq_nil fun r member => (repliesSerial r member).symm ▸ mine
      have unchanged : heldFor left n = 0 :=
        heldFor_eq_zero fun u member => (leftSerial u member).symm ▸ mine
      rw [absent] at before
      rw [silent, unchanged, List.append_nil]
      exact before

theorem Step.sound {l next : Ledger} (step : Step l next) (h : l.Sound) : next.Sound := by
  cases step with
  | execute asked held replies origin target packet => exact sound_execute h origin target packet
  | cancel asked held replies origin tx r serial => exact sound_cancel h origin tx serial
  | pay asked replies paid =>
    cases paid with
    | nothing => simpa using h
    | spend paid others => exact sound_spend h paid

end Ledger

end Patchbay
