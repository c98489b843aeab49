import Patchbay.Proofs.Broker.Withholding

/-!
# Two streams under one id

Replies to different clients may carry the same id. To a third client to which they are offered they
are one sequence of packets, and what is withheld of one stream is withheld of the other too. So the
packets of a stream fare as they would without the other one exactly when neither stream is
interrupted: after a reply that is too large, with more to follow, no packet of the other stream is
offered before one that ends a transaction.
-/

namespace Patchbay.Broker

/-- Replies under one id, each with the client that it answers, and with its packet if it is offered
to a third client. -/
abbrev Track := List (ClientId × Option Packet)

namespace Track

/-- What is offered. -/
def offered (t : Track) : List (ClientId × Packet) := t.filterMap fun (d, o) => o.map (d, ·)

/-- The track without the replies to a client. -/
def without (d : ClientId) (t : Track) : Track := t.filter (·.1 ≠ d)

/-- What is delivered for each of the replies. -/
def judge (withheld : Bool) : Track → List (ClientId × List Packet)
  | [] => []
  | (d, none) :: rest => (d, []) :: judge withheld rest
  | (d, some p) :: rest => (d, (pass withheld p).2) :: judge (pass withheld p).1 rest

/-- What is delivered for each reply to a client. -/
def fates (withheld : Bool) (d : ClientId) (t : Track) : List (List Packet) :=
  ((judge withheld t).filter (·.1 = d)).map (·.2)

end Track

/-- Before any packet ends a transaction, one is offered that does not answer the client. -/
def Cut (d : ClientId) (os : List (ClientId × Packet)) : Prop :=
  ∃ front e q back, os = front ++ (e, q) :: back ∧ e ≠ d ∧ ∀ o ∈ front, o.2.isTerminal = false

/-- A stream of which a reply is too large is cut before a packet ends a transaction. -/
def Interrupted (os : List (ClientId × Packet)) : Prop :=
  ∃ front d p back, os = front ++ (d, p) :: back ∧ TooLarge p ∧ opensStream p ∧ Cut d back

variable {a b d e : ClientId} {p q : Packet} {withheld : Bool} {t : Track}
  {os : List (ClientId × Packet)}

/-! ## One packet more -/

theorem cut_cons : Cut d ((e, q) :: os) ↔ e ≠ d ∨ q.isTerminal = false ∧ Cut d os := by
  constructor
  · rintro ⟨front, f, r, back, whole, other, goes⟩
    cases front with
    | nil =>
      obtain ⟨same, rfl⟩ := List.cons.inj whole
      obtain ⟨rfl, rfl⟩ := Prod.mk.inj same
      exact .inl other
    | cons o front =>
      obtain ⟨rfl, rfl⟩ := List.cons.inj whole
      obtain ⟨here, later⟩ := List.forall_mem_cons.1 goes
      exact .inr ⟨here, front, f, r, back, rfl, other, later⟩
  · rintro (other | ⟨here, front, f, r, back, rfl, other, later⟩)
    · exact ⟨[], e, q, os, rfl, other, by simp⟩
    · exact ⟨(e, q) :: front, f, r, back, rfl, other, List.forall_mem_cons.2 ⟨here, later⟩⟩

theorem interrupted_cons :
    Interrupted ((d, p) :: os) ↔ (pass false p).1 = true ∧ Cut d os ∨ Interrupted os := by
  rw [pass_opens_iff, and_assoc]
  constructor
  · rintro ⟨front, e, q, back, whole, large, opens, cut⟩
    cases front with
    | nil =>
      obtain ⟨same, rfl⟩ := List.cons.inj whole
      obtain ⟨rfl, rfl⟩ := Prod.mk.inj same
      exact .inl ⟨large, opens, cut⟩
    | cons o front =>
      obtain ⟨rfl, rfl⟩ := List.cons.inj whole
      exact .inr ⟨front, e, q, back, rfl, large, opens, cut⟩
  · rintro (⟨large, opens, cut⟩ | ⟨front, e, q, back, rfl, large, opens, cut⟩)
    · exact ⟨[], d, p, os, rfl, large, opens, cut⟩
    · exact ⟨(d, p) :: front, e, q, back, rfl, large, opens, cut⟩

theorem not_interrupted_nil : ¬ Interrupted [] := by
  rintro ⟨front, d, p, back, whole, -⟩
  simp at whole

theorem not_cut_nil : ¬ Cut d [] := by
  rintro ⟨front, e, q, back, whole, -⟩
  simp at whole

/-- What is delivered of a packet tells whether it was withheld. -/
theorem pass_delivers (p : Packet) : (pass false p).2 ≠ [] := by
  cases frame : Frame.encode p with
  | ok bytes => simp [pass_fits frame]
  | error v => simp [pass_large frame]

namespace Track

theorem fates_none :
    fates withheld d ((e, none) :: t) =
      if e = d then [] :: fates withheld d t else fates withheld d t := by
  simp only [fates, judge, List.filter_cons, decide_eq_true_eq]
  split <;> rfl

theorem fates_some :
    fates withheld d ((e, some p) :: t) =
      if e = d then (pass withheld p).2 :: fates (pass withheld p).1 d t
      else fates (pass withheld p).1 d t := by
  simp only [fates, judge, List.filter_cons, decide_eq_true_eq]
  split <;> rfl

theorem without_cons {o : Option Packet} :
    without d ((e, o) :: t) = if e = d then without d t else (e, o) :: without d t := by
  simp only [without, List.filter_cons]
  split <;> simp_all

@[simp] theorem offered_nil : offered [] = [] := rfl

theorem offered_none : offered ((d, none) :: t) = offered t := rfl

theorem offered_some : offered ((d, some p) :: t) = (d, p) :: offered t := rfl

/-! ## Both streams -/

/-- The packets of each stream fare as without the other. The replies before these leave the packets
withheld that come next: of all, of the first stream alone, and of the second alone. -/
def Undisturbed (a b : ClientId) (all first second : Bool) (t : Track) : Prop :=
  fates all b t = fates second b (t.without a) ∧ fates all a t = fates first a (t.without b)

theorem Undisturbed.swap {all first second : Bool} :
    Undisturbed a b all first second t ↔ Undisturbed b a all second first t := and_comm

/-- A reply of the first stream changes what is withheld of both, and of the first alone. -/
theorem undisturbed_first (apart : a ≠ b) {second : Bool} :
    Undisturbed a b withheld withheld second ((a, some p) :: t) ↔
      Undisturbed a b (pass withheld p).1 (pass withheld p).1 second t := by
  simp only [Undisturbed, fates_some, without_cons, if_neg apart, if_pos, List.cons.injEq, true_and]

/-- A reply of the second stream is lost while the first is withheld. -/
theorem not_undisturbed_second (apart : a ≠ b) :
    ¬ Undisturbed a b true true false ((b, some p) :: t) := by
  rintro ⟨second, -⟩
  simp only [fates_some, without_cons, if_neg apart.symm, if_pos, List.cons.injEq] at second
  exact pass_delivers p second.1.symm

theorem undisturbed_none (apart : a ≠ b) {all first second : Bool} (owner : d = a ∨ d = b) :
    Undisturbed a b all first second ((d, none) :: t) ↔ Undisturbed a b all first second t := by
  rcases owner with rfl | rfl
  · simp [Undisturbed, fates_none, without_cons, apart]
  · simp [Undisturbed, fates_none, without_cons, apart.symm]

/-- While nothing is withheld, and while the first stream is. -/
theorem undisturbed_iff (apart : a ≠ b) (owners : ∀ o ∈ t, o.1 = a ∨ o.1 = b) :
    (Undisturbed a b false false false t ↔ ¬ Interrupted t.offered) ∧
      (Undisturbed a b true true false t ↔ ¬ Interrupted t.offered ∧ ¬ Cut a t.offered) := by
  induction t generalizing a b with
  | nil =>
    have clear := not_interrupted_nil
    have uncut := not_cut_nil (d := a)
    simp [Undisturbed, offered, without, clear, uncut, fates, judge]
  | cons o t ih =>
    obtain ⟨d, o⟩ := o
    obtain ⟨owner, owners⟩ := List.forall_mem_cons.1 owners
    have own := ih apart owners
    have other := ih apart.symm fun o member => (owners o member).symm
    cases o with
    | none =>
      rw [undisturbed_none apart owner, undisturbed_none apart owner, offered_none]
      exact own
    | some p =>
      -- what a packet of either stream comes to when nothing is withheld
      have free {a b : ClientId} (apart : a ≠ b)
          (ih : (Undisturbed a b false false false t ↔ ¬ Interrupted (offered t)) ∧
            (Undisturbed a b true true false t ↔
              ¬ Interrupted (offered t) ∧ ¬ Cut a (offered t))) :
          Undisturbed a b false false false ((a, some p) :: t) ↔
            ¬ Interrupted ((a, p) :: offered t) := by
        rw [undisturbed_first apart, interrupted_cons]
        cases opens : (pass false p).1 with
        | true => simp [ih.2, and_comm, not_or]
        | false => simp [ih.1]
      rw [offered_some]
      rcases owner with rfl | rfl
      · refine ⟨free apart own, ?_⟩
        rw [undisturbed_first apart, interrupted_cons, cut_cons, pass_withheld]
        cases ends : p.isTerminal with
        | true =>
          have closed : (pass false p).1 = false := by
            rw [Bool.eq_false_iff, ne_eq, pass_opens_iff, opensStream_iff]
            simp [ends]
          simp [own.1, closed]
        | false =>
          simp only [Bool.not_false, own.2, ne_eq, not_true_eq_false, false_or, true_and, not_or]
          exact ⟨fun ⟨whole, uncut⟩ => ⟨⟨fun both => uncut both.2, whole⟩, uncut⟩,
            fun ⟨⟨_, whole⟩, uncut⟩ => ⟨whole, uncut⟩⟩
      · refine ⟨Undisturbed.swap.trans (free apart.symm other), ?_⟩
        rw [cut_cons]
        simp [not_undisturbed_second apart, apart.symm]

end Track

end Patchbay.Broker
