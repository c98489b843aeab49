import Patchbay.Proofs.Clients.Arrivals
import Patchbay.Proofs.Clients.Operations

/-!
# Consumption

A client loses, doubles and reorders nothing. However it is used, and whatever its channel does, each
packet that it received was consumed by one operation or is kept, and those that are kept are in the
order of arrival. An operation that takes a packet takes the earliest one that it is there for; one
that takes none keeps all that it read.
-/

namespace Patchbay

variable {α : Type} [Channel α]

namespace Client

variable {wants : Packet → Bool} {A : Prop} {c c' : Client (Tapped α)} {a : Arrivals}
  {found : Option Packet}

/-- What is left is what the client keeps. -/
structure Keeps (c : Client (Tapped α)) (a : Arrivals) : Prop where
  sound : a.Sound
  received : a.received = c.received
  pending : c.pending = a.left.map Prod.fst

/-- What arrived in the meantime. -/
def since (c : Client (Tapped α)) (a : Arrivals) : Arrivals := { a with received := c.received }

omit [Channel α] in
theorem Keeps.since_eq (keeps : Keeps c a) {ps : List Packet}
    (received : c'.received = c.received ++ ps) : c'.since a = a.arrive ps := by
  rw [since, received, ← keeps.received]
  rfl

omit [Channel α] in
theorem Keeps.since_self (keeps : Keeps c a) (received : c'.received = c.received) :
    c'.since a = a := by
  rw [since, received, ← keeps.received]

/-- What taking a packet leaves, or taking none, when `b` is what arrived by then. -/
inductive Settled (wants : Packet → Bool) (b : Arrivals) (c' : Client (Tapped α)) :
    Option Packet → Prop where
  | took {before after : List (Packet × Nat)} {e : Packet × Nat}
      (split : b.left = before ++ e :: after) (unwanted : ∀ f ∈ before, wants f.1 = false)
      (wanted : wants e.1 = true) (pending : c'.pending = (before ++ after).map Prod.fst) :
      Settled wants b c' (some e.1)
  | kept (pending : c'.pending = b.left.map Prod.fst) : Settled wants b c' none

omit [Channel α] in
theorem Fetch.settled (fetch : Fetch wants A c c' found) (keeps : Keeps c a) :
    (c'.since a).Sound ∧ Settled wants (c'.since a) c' found := by
  have unwanted {es : List (Packet × Nat)} {ps : List Packet} (same : es.map Prod.fst = ps)
      (none : ∀ q ∈ ps, wants q = false) : ∀ f ∈ es, wants f.1 = false := fun f member =>
    none f.1 (same ▸ List.mem_map_of_mem member)
  cases fetch with
  | @kept passed others p pending passing wanted received left =>
    rw [keeps.since_self received]
    refine ⟨keeps.sound, ?_⟩
    obtain ⟨before, rest, split, front, back⟩ :=
      List.map_eq_append_iff.1 (keeps.pending.symm.trans pending)
    obtain ⟨e, after, rfl, rfl, behind⟩ := List.map_eq_cons_iff.1 back
    exact .took split (unwanted front passing) wanted (by rw [left, List.map_append, front, behind])
  | @read passed p idle passing wanted received left =>
    rw [keeps.since_eq received]
    refine ⟨keeps.sound.arrive _, ?_⟩
    have split : (a.arrive (passed ++ [p])).left =
        (a.left ++ passed.zipIdx a.received.length) ++
          (p, a.received.length + passed.length) :: [] := by
      rw [keeps.sound.left_arrive, List.zipIdx_append, List.append_assoc]
      rfl
    have ahead : (a.left ++ passed.zipIdx a.received.length).map Prod.fst = c.pending ++ passed := by
      rw [List.map_append, List.zipIdx_map_fst, ← keeps.pending]
    refine .took split (unwanted ahead fun q member => ?_) wanted (by rw [List.append_nil, ahead, left])
    exact (List.mem_append.1 member).elim (idle q) (passing q)
  | @without passed idle passing received left =>
    rw [keeps.since_eq received]
    refine ⟨keeps.sound.arrive _, .kept ?_⟩
    rw [keeps.sound.left_arrive, List.map_append, List.zipIdx_map_fst, ← keeps.pending, left]
  | unasked fails received left =>
    rw [keeps.since_self received]
    exact ⟨keeps.sound, .kept (left.trans keeps.pending)⟩

/-! ## Runs -/

/-- What arrived behind an operation, and what was consumed: the earliest packet that the operation
wants, if its outcome is that it took one. -/
def Operation.account (op : Operation) (c : Client (Tapped α)) (a : Arrivals) : Arrivals :=
  let b := (op.perform c).2.since a
  match (op.perform c).1 with
  | .yielded _ | .answered _ => ((b.left.find? fun e => op.wants c e.1).map b.consume).getD b
  | .nothing | .broken _ => b

/-- A client since its start, and what arrived there. Between two operations anything may happen on the
channel. -/
inductive Used : Client (Tapped α) → Arrivals → Prop where
  | start (inner : α) (number requestTimeout : Nat) :
      Used (.start ⟨inner, []⟩ number requestTimeout) ⟨[], []⟩
  | perform {c : Client (Tapped α)} {a : Arrivals} (op : Operation) (before : Used c a) :
      Used (op.perform c).2 (op.account c a)
  | meanwhile {c : Client (Tapped α)} {a : Arrivals} (inner : α) (before : Used c a) :
      Used { c with channel := { c.channel with inner := inner } } a
  | limit {c : Client (Tapped α)} {a : Arrivals} (timeout : Option Nat) (before : Used c a) :
      Used { c with executeTimeout := timeout } a

variable {c c' : Client (Tapped α)} {a : Arrivals} {op : Operation} {o : Outcome}

/-- Taking a packet is accounted for as the packet that it takes. -/
theorem account_of_split (h : op.perform c = (o, c')) (takes : ¬ o.Fits none)
    {before after : List (Packet × Nat)} {e : Packet × Nat}
    (split : (c'.since a).left = before ++ e :: after)
    (unwanted : ∀ f ∈ before, op.wants c f.1 = false) (wanted : op.wants c e.1 = true) :
    op.account c a = (c'.since a).consume e := by
  have found : ((c'.since a).left.find? fun f => op.wants c f.1) = some e :=
    List.find?_eq_some_iff_append.2 ⟨wanted, before, after, split, fun f member => by
      simp [unwanted f member]⟩
  rw [Operation.account, h]
  dsimp only
  cases o with
  | yielded | answered => rw [found]; rfl
  | nothing | broken => exact absurd rfl takes

theorem account_of_none (h : op.perform c = (o, c')) (keeps : o.Fits none) :
    op.account c a = c'.since a := by
  rw [Operation.account, h]
  dsimp only
  cases o with
  | yielded p => cases keeps
  | answered failure =>
    obtain ⟨p, none, -⟩ := keeps
    cases none
  | nothing | broken => rfl

/-- Taking a packet is no outcome of taking none. -/
theorem Outcome.Fits.takes {p : Packet} (fits : o.Fits (some p)) : ¬ o.Fits none := by
  cases o with
  | yielded q => simp [Outcome.Fits]
  | answered failure => simp [Outcome.Fits]
  | nothing | broken => cases fits

/-- One operation, from what is kept to what is kept. -/
theorem Keeps.perform (keeps : Keeps c a) (op : Operation) :
    Keeps (op.perform c).2 (op.account c a) := by
  rcases h : op.perform c with ⟨o, c'⟩
  obtain ⟨found, fits, fetch⟩ := op.perform_fetch h
  obtain ⟨sound, settled⟩ := fetch.settled keeps
  cases settled with
  | took split unwanted wanted pending =>
    rw [account_of_split h fits.takes split unwanted wanted]
    refine ⟨sound.consume (split ▸ List.mem_append_right _ List.mem_cons_self), rfl, ?_⟩
    rw [Arrivals.left_consume split]
    exact pending
  | kept pending =>
    rw [account_of_none h fits]
    exact ⟨sound, rfl, pending⟩

theorem Used.keeps (used : Used c a) : Keeps c a := by
  induction used with
  | start inner number requestTimeout =>
    exact ⟨⟨List.nodup_nil, List.nil_subset _⟩, rfl, rfl⟩
  | perform op before ih => exact ih.perform op
  | meanwhile inner before ih => exact ⟨ih.sound, ih.received, ih.pending⟩
  | limit timeout before ih => exact ⟨ih.sound, ih.received, ih.pending⟩

/-! ## Main result -/

/-- What an operation with this outcome did, from a client `c` for which `a` arrived to `c'`. -/
structure Operated (a : Arrivals) (op : Operation) (c : Client (Tapped α)) (o : Outcome)
    (c' : Client (Tapped α)) : Prop where
  /-- It may have received more. -/
  grows : c.received <+: c'.received
  /-- If it took a packet, it is the earliest that it wants of all that were received by then and not
  consumed; the outcome tells that packet, or what is in it, and the packet is consumed. -/
  takes : ¬ o.Fits none → ∃ e, (c'.since a).Earliest (op.wants c) e ∧ o.Fits (some e.1) ∧
    op.account c a = (c'.since a).consume e
  /-- If it took none, for a timeout or an error or because it wants none, nothing is consumed: what is
  new is kept behind the rest. -/
  keeps : o.Fits none → op.account c a = c'.since a ∧
    ∃ new, c'.received = c.received ++ new ∧ c'.pending = c.pending ++ new
  /-- It takes what there is without waiting, and takes none only if there is none; unless it has a
  question that cannot be sent. -/
  ready : op.Asks c → (∃ e ∈ a.left, op.wants c e.1 = true) →
    ¬ o.Fits none ∧ c'.received = c.received
  lacks : op.Asks c → o.Fits none → ∀ e ∈ (c'.since a).left, op.wants c e.1 = false

/-- That nothing is lost, doubled or reordered by a client `c`, when `a` is what arrived and what was
consumed since its start. -/
structure Accounted (c : Client (Tapped α)) (a : Arrivals) : Prop where
  /-- Every packet that was received was consumed or is kept, once. -/
  received : a.received = c.received
  each : c.received.zipIdx.Perm (a.consumed ++ a.left)
  /-- Those that are kept are in the order of arrival. -/
  pending : c.pending = a.left.map Prod.fst
  ordered : a.left.Sublist c.received.zipIdx
  operated : ∀ op o c', op.perform c = (o, c') → Operated a op c o c'
  /-- The tap by which this is told changes nothing. -/
  untapped : ∀ op : Operation, op.perform c.plain = (op.perform c).map id plain

theorem operated_of_keeps (keeps : Keeps c a) (h : op.perform c = (o, c')) :
    Operated a op c o c' := by
  obtain ⟨found, fits, fetch⟩ := op.perform_fetch h
  obtain ⟨sound, settled⟩ := fetch.settled keeps
  constructor
  case grows =>
    cases fetch with
    | kept _ _ _ received | unasked _ received => exact received ▸ List.prefix_refl _
    | read _ _ _ received | without _ _ received => exact received ▸ List.prefix_append _ _
  case takes =>
    intro takes
    cases settled with
    | took split unwanted wanted pending =>
      exact ⟨_, Arrivals.earliest_of_split split unwanted wanted, fits,
        account_of_split h takes split unwanted wanted⟩
    | kept pending => exact absurd fits takes
  case keeps =>
    intro none
    refine ⟨account_of_none h none, ?_⟩
    cases fetch with
    | kept | read => exact absurd none fits.takes
    | without idle unwanted received left => exact ⟨_, received, left⟩
    | unasked fails received left =>
      exact ⟨[], received.trans (List.append_nil _).symm, left.trans (List.append_nil _).symm⟩
  case ready =>
    rintro asks ⟨e, there, wanted⟩
    have kept : e.1 ∈ c.pending := keeps.pending ▸ List.mem_map_of_mem there
    cases fetch with
    | kept pending unwanted wanted' received left => exact ⟨fits.takes, received⟩
    | read idle | without idle =>
      rw [idle e.1 kept] at wanted
      cases wanted
    | unasked fails => exact absurd asks fails
  case lacks =>
    intro asks none e there
    have unwanted : ∀ q ∈ c'.pending, op.wants c q = false := by
      cases fetch with
      | kept | read => exact absurd none fits.takes
      | without idle passing received left =>
        intro q member
        rw [left] at member
        exact (List.mem_append.1 member).elim (idle q) (passing q)
      | unasked fails => exact absurd asks fails
    cases settled with
    | took => exact absurd none fits.takes
    | kept pending => exact unwanted e.1 (pending ▸ List.mem_map_of_mem there)

/-- However a client is used, and whatever its channel does, it loses, doubles and reorders nothing. -/
theorem client_accounted (used : Used c a) : Accounted c a := by
  have keeps := used.keeps
  constructor
  case received => exact keeps.received
  case each => exact keeps.received ▸ keeps.sound.partition
  case pending => exact keeps.pending
  case ordered => exact keeps.received ▸ List.filter_sublist
  case operated => exact fun op o c' h => operated_of_keeps keeps h
  case untapped => exact fun op => op.perform_plain c

end Client

/-- A channel on which it was settled beforehand what arrives. -/
structure Script where
  arrivals : List Arrival

instance : Channel Script where
  now _ := 0
  send s _ := .ok s
  receive s _ :=
    match s.arrivals with
    | [] => (.expired, s)
    | x :: rest => (x, ⟨rest⟩)
  close s := s

namespace Client

/-- Before the answer to a cancel comes an output, and behind it another one; then nothing does. -/
def script : Script :=
  ⟨[.packet (.output "x" 0 true .null), .packet (.respondOk "t"), .packet (.output "y" 0 true .null),
    .expired]⟩

/-- The answer is taken first, a wait for something else is in vain, and then the first output is
taken. -/
theorem client_accounted_script :
    ∃ (c : Client (Tapped Script)) (a : Arrivals), Used c a ∧ c.received.length = 3 ∧
      a.consumed.map Prod.snd = [1, 0] ∧ c.pending.map Packet.tx = ["y"] ∧ Accounted c a := by
  have used := Used.perform (.listen none) <| .perform (.waitFor 5 "z") <|
    .perform (.cancel 5 "t") <| .start script 1 1000
  exact ⟨_, _, used, rfl, rfl, rfl, client_accounted used⟩

end Client

end Patchbay
