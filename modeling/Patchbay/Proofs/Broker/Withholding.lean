import Patchbay.Broker
import Patchbay.Socket
import Patchbay.Proofs.Packets

/-!
# Withholding

What the broker makes of the packets of one transaction for one client, apart from all others. A
reply that is too large and not the last of its stream is replaced by a failure, and the rest of the
stream is withheld, up to a packet that ends a transaction. The answer to a cancel ends one too, so
an answer that comes in the middle of what is withheld is lost, and the stream goes on behind it.
-/

namespace Patchbay.Broker

/-- No frame can hold the packet. -/
def TooLarge (p : Packet) : Prop := ∃ v, Frame.encode p = .error v

theorem encode_of_not_tooLarge {p : Packet} (fits : ¬ TooLarge p) :
    ∃ bytes, Frame.encode p = .ok bytes := by
  cases framed : Frame.encode p with
  | ok bytes => exact ⟨bytes, rfl⟩
  | error v => exact absurd ⟨v, framed⟩ fits

/-- What becomes of a packet: whether the next ones are withheld, and what is delivered. -/
def pass (withheld : Bool) (p : Packet) : Bool × List Packet :=
  if withheld then (!p.isTerminal, [])
  else
    match Frame.encode p with
    | .ok _ => (false, [p])
    | .error v => (opensStream p, [replacement p v])

/-- What becomes of packets, one after the other. -/
def passAll (withheld : Bool) : List Packet → Bool × List Packet
  | [] => (withheld, [])
  | p :: rest =>
    ((passAll (pass withheld p).1 rest).1,
      (pass withheld p).2 ++ (passAll (pass withheld p).1 rest).2)

/-- The packets of a transaction answer its execute or a cancel of it. -/
def Replies (ps : List Packet) : Prop := ∀ p ∈ ps, p.type = .respond ∨ p.type = .respondExecute

/-- How many cancels are answered. -/
def answers (ps : List Packet) : Nat := ps.countP fun p => p.type == .respond

/-- Behind a reply that ends an execute there is no other reply to it. -/
def EndsOnce : List Packet → Prop
  | [] => True
  | p :: rest =>
    (p.type = .respondExecute → p.isTerminal → ∀ q ∈ rest, q.type ≠ .respondExecute) ∧
      EndsOnce rest

/-- How many replies end an execute. -/
def endings (ps : List Packet) : Nat :=
  ps.countP fun p => p.type == .respondExecute && p.isTerminal

/-- An answer to a cancel comes before the execute has ended. -/
def AnswerFirst (ps : List Packet) : Prop :=
  ∃ front r back, ps = front ++ r :: back ∧ r.type = .respond ∧
    ∀ p ∈ front, p.type = .respondExecute → p.isTerminal = false

/-- An answer to a cancel comes behind a reply that is too large and not the last one, and before
the execute has ended. -/
def Crossed (ps : List Packet) : Prop :=
  ∃ front p back, ps = front ++ p :: back ∧ TooLarge p ∧ opensStream p ∧ AnswerFirst back

/-- Behind a reply that is too large and not the last one, no packet ends a transaction. -/
def Stuck (ps : List Packet) : Prop :=
  ∃ front p back, ps = front ++ p :: back ∧ TooLarge p ∧ opensStream p ∧
    ∀ q ∈ back, q.isTerminal = false

/-- No answer to a cancel is withheld. -/
def Smooth (withheld : Bool) : List Packet → Prop
  | [] => True
  | p :: rest => (withheld → p.type ≠ .respond) ∧ Smooth (pass withheld p).1 rest

/-! ## One packet -/

variable {p : Packet}

theorem pass_withheld (p : Packet) : pass true p = (!p.isTerminal, []) := rfl

theorem pass_fits {bytes : Bytes} (fits : Frame.encode p = .ok bytes) :
    pass false p = (false, [p]) := by
  simp [pass, fits]

theorem pass_large {v : Violation} (large : Frame.encode p = .error v) :
    pass false p = (opensStream p, [replacement p v]) := by
  simp [pass, large]

theorem replacement_respond (answer : p.type = .respond) (v : Violation) :
    (replacement p v).type = .respond := by
  simp [replacement, answer, Packet.respondFault, Packet.bare]

theorem replacement_respondExecute (execute : p.type = .respondExecute) (v : Violation) :
    (replacement p v).type = .respondExecute ∧ (replacement p v).isTerminal := by
  simp only [replacement, execute]
  exact ⟨rfl, by simp⟩

theorem replacement_tx (p : Packet) (v : Violation) : (replacement p v).tx = p.tx := by
  unfold replacement
  split <;> rfl

/-- What is delivered for a packet is of its type. -/
theorem type_of_mem_pass {withheld : Bool} {q : Packet}
    (sort : p.type = .respond ∨ p.type = .respondExecute) (member : q ∈ (pass withheld p).2) :
    q.type = p.type := by
  cases withheld with
  | true => simp [pass_withheld] at member
  | false =>
    cases frame : Frame.encode p with
    | ok bytes =>
      rw [pass_fits frame, List.mem_singleton] at member
      rw [member]
    | error v =>
      rw [pass_large frame, List.mem_singleton] at member
      rw [member]
      rcases sort with answer | execute
      · rw [replacement_respond answer, answer]
      · rw [(replacement_respondExecute execute v).1, execute]

/-- A packet is answered unless it is withheld. -/
theorem answers_pass {withheld : Bool} (sort : p.type = .respond ∨ p.type = .respondExecute) :
    answers (pass withheld p).2 = if withheld then 0 else answers [p] := by
  cases withheld with
  | true => rfl
  | false =>
    cases frame : Frame.encode p with
    | ok bytes => rw [pass_fits frame]; rfl
    | error v =>
      have delivered : replacement p v ∈ (pass false p).2 := by simp [pass_large frame]
      rw [pass_large frame]
      simp [answers, type_of_mem_pass sort delivered]

/-! ## Packets in a row -/

theorem endsOnce_of_no_execute {ps : List Packet} (none : ∀ p ∈ ps, p.type ≠ .respondExecute) :
    EndsOnce ps := by
  induction ps with
  | nil => trivial
  | cons p rest ih =>
    obtain ⟨first, later⟩ := List.forall_mem_cons.1 none
    exact ⟨fun execute => absurd execute first, ih later⟩

theorem Replies.head {rest : List Packet} (h : Replies (p :: rest)) :
    p.type = .respond ∨ p.type = .respondExecute := h p List.mem_cons_self

theorem Replies.tail {rest : List Packet} (h : Replies (p :: rest)) : Replies rest :=
  fun q member => h q (List.mem_cons_of_mem p member)

theorem passAll_append (withheld : Bool) (ps qs : List Packet) :
    passAll withheld (ps ++ qs) =
      ((passAll (passAll withheld ps).1 qs).1,
        (passAll withheld ps).2 ++ (passAll (passAll withheld ps).1 qs).2) := by
  induction ps generalizing withheld with
  | nil => rfl
  | cons p rest ih => simp [passAll, ih]

theorem answers_append (ps qs : List Packet) : answers (ps ++ qs) = answers ps + answers qs :=
  List.countP_append

theorem endings_append (ps qs : List Packet) : endings (ps ++ qs) = endings ps + endings qs :=
  List.countP_append

/-- A reply to an execute may be added while none has ended it. -/
theorem endsOnce_append_one {ps : List Packet} {q : Packet} :
    EndsOnce (ps ++ [q]) ↔ EndsOnce ps ∧ (q.type = .respondExecute → endings ps = 0) := by
  induction ps with
  | nil => simp [EndsOnce, endings]
  | cons p rest ih =>
    have split : endings (p :: rest) = endings [p] + endings rest := endings_append [p] rest
    rw [List.cons_append, EndsOnce, EndsOnce, ih, split]
    by_cases terminal : p.type = .respondExecute ∧ p.isTerminal = true
    · have one : endings [p] = 1 := by simp [endings, terminal]
      obtain ⟨execute, ends⟩ := terminal
      simp only [one, List.mem_append, List.mem_singleton]
      constructor
      · rintro ⟨clear, later, -⟩
        exact ⟨⟨fun _ _ r member => clear execute ends r (.inl member), later⟩,
          fun again => absurd again (clear execute ends q (.inr rfl))⟩
      · rintro ⟨⟨clear, later⟩, none⟩
        have other : q.type ≠ .respondExecute := fun again => by have := none again; omega
        refine ⟨?_, later, fun again => absurd again other⟩
        rintro - - r (member | rfl)
        · exact clear execute ends r member
        · exact other
    · have none : endings [p] = 0 := by simpa [endings] using terminal
      have vacuous (Q : Prop) : (p.type = .respondExecute → p.isTerminal = true → Q) ↔ True :=
        iff_true_intro fun execute ends => absurd ⟨execute, ends⟩ terminal
      rw [vacuous, vacuous, none, Nat.zero_add, true_and, true_and]

theorem EndsOnce.endings_le {ps : List Packet} (ends : EndsOnce ps) : endings ps ≤ 1 := by
  induction ps with
  | nil => simp [endings]
  | cons p rest ih =>
    have split : endings (p :: rest) = endings [p] + endings rest := endings_append [p] rest
    have first : endings [p] ≤ 1 := List.countP_le_length
    by_cases terminal : p.type = .respondExecute ∧ p.isTerminal = true
    · have silent : endings rest = 0 := by
        refine List.countP_eq_zero.2 fun q member => ?_
        simp [ends.1 terminal.1 terminal.2 q member]
      omega
    · have none : endings [p] = 0 := by simpa [endings] using terminal
      have := ih ends.2
      omega

/-- No more answers are delivered than there are, and as many exactly when none is withheld. -/
theorem answers_passAll {withheld : Bool} {ps : List Packet} (sorts : Replies ps) :
    answers (passAll withheld ps).2 ≤ answers ps ∧
      (answers (passAll withheld ps).2 = answers ps ↔ Smooth withheld ps) := by
  induction ps generalizing withheld with
  | nil => simp [passAll, Smooth]
  | cons p rest ih =>
    obtain ⟨most, all⟩ := @ih (pass withheld p).1 sorts.tail
    have split : answers (p :: rest) = answers [p] + answers rest := answers_append [p] rest
    rw [passAll, answers_append, answers_pass sorts.head, split, Smooth, ← all]
    cases withheld with
    | false => simp; omega
    | true =>
      by_cases answer : p.type = .respond
      · have one : answers [p] = 1 := by simp [answers, answer]
        simp [one, answer]
        omega
      · have none : answers [p] = 0 := by simp [answers, answer]
        simp [none, answer]
        omega

/-- Without replies to an execute, none is delivered. -/
theorem passAll_no_execute {withheld : Bool} {ps : List Packet} (sorts : Replies ps)
    (none : ∀ p ∈ ps, p.type ≠ .respondExecute) :
    ∀ q ∈ (passAll withheld ps).2, q.type ≠ .respondExecute := by
  induction ps generalizing withheld with
  | nil => simp [passAll]
  | cons p rest ih =>
    intro q member
    rw [passAll] at member
    rcases List.mem_append.1 member with first | later
    · rw [type_of_mem_pass sorts.head first]
      exact none p List.mem_cons_self
    · exact ih sorts.tail (fun q member => none q (List.mem_cons_of_mem p member)) q later

/-- While a stream is withheld smoothly, nothing of it is delivered. -/
theorem passAll_withheld {ps : List Packet} (sorts : Replies ps) (ends : EndsOnce ps)
    (smooth : Smooth true ps) : ∀ q ∈ (passAll true ps).2, q.type ≠ .respondExecute := by
  induction ps with
  | nil => simp [passAll]
  | cons p rest ih =>
    have execute : p.type = .respondExecute := sorts.head.resolve_left (smooth.1 rfl)
    rw [passAll, pass_withheld]
    cases terminal : p.isTerminal with
    | true => exact passAll_no_execute sorts.tail (ends.1 execute terminal)
    | false =>
      have smooth := smooth.2
      rw [pass_withheld, terminal] at smooth
      exact ih sorts.tail ends.2 smooth

/-- What is delivered of a stream ends once too, when no answer is withheld. -/
theorem EndsOnce.passAll {ps : List Packet} (sorts : Replies ps) (ends : EndsOnce ps)
    (smooth : Smooth false ps) : EndsOnce (passAll false ps).2 := by
  induction ps with
  | nil => trivial
  | cons p rest ih =>
    have later := smooth.2
    rw [Broker.passAll]
    cases frame : Frame.encode p with
    | ok bytes =>
      rw [pass_fits frame] at later ⊢
      refine ⟨fun execute terminal => ?_, ih sorts.tail ends.2 later⟩
      exact passAll_no_execute sorts.tail (ends.1 execute terminal)
    | error v =>
      rw [pass_large frame] at later ⊢
      cases opens : opensStream p with
      | true =>
        rw [opens] at later
        have silent := passAll_withheld sorts.tail ends.2 later
        exact ⟨fun _ _ => silent, endsOnce_of_no_execute silent⟩
      | false =>
        rw [opens] at later
        refine ⟨fun execute _ => ?_, ih sorts.tail ends.2 later⟩
        have delivered : replacement p v ∈ (pass false p).2 := by simp [pass_large frame]
        rw [type_of_mem_pass sorts.head delivered] at execute
        have terminal : p.isTerminal := by simpa [opensStream, execute] using opens
        exact passAll_no_execute sorts.tail (ends.1 execute terminal)

/-- Unless something is withheld, what is delivered of packets that hold a reply to an execute holds
one too. -/
theorem no_execute_of_passAll {ps : List Packet} (sorts : Replies ps)
    (none : ∀ q ∈ (passAll false ps).2, q.type ≠ .respondExecute) :
    ∀ p ∈ ps, p.type ≠ .respondExecute := by
  induction ps with
  | nil => simp
  | cons p rest ih =>
    rw [passAll] at none
    have here : ∀ q ∈ (pass false p).2, q.type ≠ .respondExecute := fun q member =>
      none q (List.mem_append_left _ member)
    have later : ∀ q ∈ (passAll (pass false p).1 rest).2, q.type ≠ .respondExecute :=
      fun q member => none q (List.mem_append_right _ member)
    cases frame : Frame.encode p with
    | ok bytes =>
      rw [pass_fits frame] at here later
      exact List.forall_mem_cons.2 ⟨here p List.mem_cons_self, ih sorts.tail later⟩
    | error v =>
      rw [pass_large frame] at here later
      have other : p.type ≠ .respondExecute := fun execute =>
        here _ List.mem_cons_self (replacement_respondExecute execute v).1
      have closed : opensStream p = false := by simp [opensStream, other]
      rw [closed] at later
      exact List.forall_mem_cons.2 ⟨other, ih sorts.tail later⟩

/-- A stream of which nothing is delivered while it is withheld ends once. -/
theorem endsOnce_of_passAll_withheld {ps : List Packet} (sorts : Replies ps)
    (smooth : Smooth true ps) (none : ∀ q ∈ (passAll true ps).2, q.type ≠ .respondExecute) :
    EndsOnce ps := by
  induction ps with
  | nil => trivial
  | cons p rest ih =>
    rw [passAll, pass_withheld] at none
    cases terminal : p.isTerminal with
    | true =>
      rw [terminal] at none
      have silent := no_execute_of_passAll sorts.tail none
      exact ⟨fun _ _ => silent, endsOnce_of_no_execute silent⟩
    | false =>
      have later := smooth.2
      rw [pass_withheld, terminal] at later
      rw [terminal] at none
      exact ⟨fun _ ends => by simp [terminal] at ends, ih sorts.tail later none⟩

/-- A stream ends once when what is delivered of it does and no answer is withheld. -/
theorem endsOnce_of_passAll {ps : List Packet} (sorts : Replies ps) (smooth : Smooth false ps)
    (ends : EndsOnce (Broker.passAll false ps).2) : EndsOnce ps := by
  induction ps with
  | nil => trivial
  | cons p rest ih =>
    have later := smooth.2
    rw [Broker.passAll] at ends
    cases frame : Frame.encode p with
    | ok bytes =>
      rw [pass_fits frame] at later ends
      refine ⟨fun execute terminal => ?_, ih sorts.tail later ends.2⟩
      exact no_execute_of_passAll sorts.tail (ends.1 execute terminal)
    | error v =>
      rw [pass_large frame] at later ends
      cases opens : opensStream p with
      | true =>
        rw [opens] at later ends
        obtain ⟨execute, goes⟩ : p.type = .respondExecute ∧ p.isTerminal = false := by
          simpa [opensStream] using opens
        obtain ⟨type, terminal⟩ := replacement_respondExecute execute v
        -- The failure ends the stream for its receiver, so nothing of the rest was delivered.
        refine ⟨fun _ ends => by simp [goes] at ends, ?_⟩
        exact endsOnce_of_passAll_withheld sorts.tail later (ends.1 type terminal)
      | false =>
        rw [opens] at later ends
        refine ⟨fun execute _ => ?_, ih sorts.tail later ends.2⟩
        obtain ⟨type, terminal⟩ := replacement_respondExecute execute v
        exact no_execute_of_passAll sorts.tail (ends.1 type terminal)

/-! ## Crossings -/

theorem answerFirst_cons {rest : List Packet} :
    AnswerFirst (p :: rest) ↔
      p.type = .respond ∨
        ((p.type = .respondExecute → p.isTerminal = false) ∧ AnswerFirst rest) := by
  constructor
  · rintro ⟨front, r, back, whole, answer, before⟩
    cases front with
    | nil =>
      obtain ⟨rfl, rfl⟩ := List.cons.inj whole
      exact .inl answer
    | cons q front =>
      obtain ⟨rfl, rfl⟩ := List.cons.inj whole
      exact .inr ⟨before p List.mem_cons_self,
        front, r, back, rfl, answer, fun q member => before q (List.mem_cons_of_mem p member)⟩
  · rintro (answer | ⟨here, front, r, back, rfl, answer, before⟩)
    · exact ⟨[], p, rest, rfl, answer, by simp⟩
    · exact ⟨p :: front, r, back, rfl, answer, List.forall_mem_cons.2 ⟨here, before⟩⟩

theorem crossed_cons {rest : List Packet} :
    Crossed (p :: rest) ↔ (TooLarge p ∧ opensStream p ∧ AnswerFirst rest) ∨ Crossed rest := by
  constructor
  · rintro ⟨front, q, back, whole, large, opens, first⟩
    cases front with
    | nil =>
      obtain ⟨rfl, rfl⟩ := List.cons.inj whole
      exact .inl ⟨large, opens, first⟩
    | cons r front =>
      obtain ⟨rfl, rfl⟩ := List.cons.inj whole
      exact .inr ⟨front, q, back, rfl, large, opens, first⟩
  · rintro (⟨large, opens, first⟩ | ⟨front, q, back, rfl, large, opens, first⟩)
    · exact ⟨[], p, rest, rfl, large, opens, first⟩
    · exact ⟨p :: front, q, back, rfl, large, opens, first⟩

/-- The packet after which a stream is withheld. -/
theorem pass_opens_iff : (pass false p).1 = true ↔ TooLarge p ∧ opensStream p := by
  unfold TooLarge
  cases frame : Frame.encode p with
  | ok bytes => simp [pass_fits frame]
  | error v => simp [pass_large frame]

/-- An answer is withheld exactly when the packets cross, or, while a stream is withheld already,
when an answer comes before the end of the stream. -/
theorem smooth_iff {withheld : Bool} {ps : List Packet} (sorts : Replies ps) :
    Smooth withheld ps ↔ ¬ Crossed ps ∧ (withheld → ¬ AnswerFirst ps) := by
  induction ps generalizing withheld with
  | nil => simp [Smooth, Crossed, AnswerFirst]
  | cons p rest ih =>
    rw [Smooth, ih sorts.tail, crossed_cons, answerFirst_cons]
    cases withheld with
    | false =>
      rw [pass_opens_iff]
      constructor
      · rintro ⟨-, clear, first⟩
        refine ⟨?_, by simp⟩
        rintro (⟨large, opens, answer⟩ | crossed)
        · exact first ⟨large, opens⟩ answer
        · exact clear crossed
      · rintro ⟨clear, -⟩
        exact ⟨by simp, fun crossed => clear (.inr crossed),
          fun ⟨large, opens⟩ answer => clear (.inl ⟨large, opens, answer⟩)⟩
    | true =>
      rw [pass_withheld]
      rcases sorts.head with answer | execute
      · simp [answer]
      · cases terminal : p.isTerminal with
        | true => simp [execute, terminal, opensStream]
        | false =>
          have other : p.type ≠ .respond := by simp [execute]
          constructor
          · rintro ⟨-, clear, first⟩
            refine ⟨?_, fun _ => ?_⟩
            · rintro (⟨-, -, answer⟩ | crossed)
              · exact first rfl answer
              · exact clear crossed
            · rintro (answer | ⟨-, answer⟩)
              · exact other answer
              · exact first rfl answer
          · rintro ⟨clear, first⟩
            exact ⟨fun _ => other, fun crossed => clear (.inr crossed),
              fun _ answer => first rfl (.inr ⟨fun _ => rfl, answer⟩)⟩

/-! ## Streams that stay withheld -/

theorem opensStream_iff : opensStream p ↔ p.type = .respondExecute ∧ p.isTerminal = false := by
  simp [opensStream]

theorem stuck_cons {rest : List Packet} :
    Stuck (p :: rest) ↔
      (TooLarge p ∧ opensStream p ∧ ∀ q ∈ rest, q.isTerminal = false) ∨ Stuck rest := by
  constructor
  · rintro ⟨front, q, back, whole, large, opens, goes⟩
    cases front with
    | nil =>
      obtain ⟨rfl, rfl⟩ := List.cons.inj whole
      exact .inl ⟨large, opens, goes⟩
    | cons r front =>
      obtain ⟨rfl, rfl⟩ := List.cons.inj whole
      exact .inr ⟨front, q, back, rfl, large, opens, goes⟩
  · rintro (⟨large, opens, goes⟩ | ⟨front, q, back, rfl, large, opens, goes⟩)
    · exact ⟨[], p, rest, rfl, large, opens, goes⟩
    · exact ⟨p :: front, q, back, rfl, large, opens, goes⟩

/-- What comes next is withheld exactly when the packets are stuck, or, while a stream is withheld
already, when none of them ends a transaction. -/
theorem passAll_withholds_iff {withheld : Bool} {ps : List Packet} :
    (passAll withheld ps).1 = true ↔
      (withheld = true ∧ ∀ p ∈ ps, p.isTerminal = false) ∨ Stuck ps := by
  induction ps generalizing withheld with
  | nil => simp [passAll, Stuck]
  | cons p rest ih =>
    rw [passAll, ih, stuck_cons, List.forall_mem_cons]
    cases withheld with
    | false =>
      rw [pass_opens_iff, and_assoc]
      simp
    | true =>
      simp only [pass_withheld, Bool.not_eq_true', true_and]
      constructor
      · rintro (⟨here, later⟩ | stuck)
        · exact .inl ⟨here, later⟩
        · exact .inr (.inr stuck)
      · rintro (⟨here, later⟩ | ⟨-, opens, later⟩ | stuck)
        · exact .inl ⟨here, later⟩
        · exact .inl ⟨(opensStream_iff.1 opens).2, later⟩
        · exact .inr stuck

/-! ## Main result -/

/-- What is delivered is a stream that ends once, with every answer to a cancel, exactly when what
is offered ends once and no answer crosses it. -/
theorem delivered_iff {ps : List Packet} (sorts : Replies ps) :
    EndsOnce (passAll false ps).2 ∧ answers (passAll false ps).2 = answers ps ↔
      EndsOnce ps ∧ ¬ Crossed ps := by
  have smooth : Smooth false ps ↔ ¬ Crossed ps := by
    rw [smooth_iff sorts]
    simp
  rw [(answers_passAll sorts).2, smooth]
  constructor
  · rintro ⟨ends, clear⟩
    exact ⟨endsOnce_of_passAll sorts (smooth.2 clear) ends, clear⟩
  · rintro ⟨ends, clear⟩
    exact ⟨ends.passAll sorts (smooth.2 clear), clear⟩

end Patchbay.Broker
