import Mathlib.Data.Nat.Find
import Patchbay.Proofs.Machine.Endings
import Patchbay.Proofs.Machine.ReplyStreams
import Patchbay.Proofs.Schedules

/-!
# What is sent of a stream

A stream is driven by one look after another, made whenever somebody has time, with the call
cancelled or not. What is sent follows from what was found: the values before the end, a failure or
a cancellation that a look noticed, each once and in their order, and then how it ended. An element
is held back until the next one is known, which shows only in the last output being the one that is
done.
-/

namespace Patchbay

/-! ## Elements -/

/-- What is at a position, however long it takes. -/
def Pull.element? : Pull → Option Element
  | value _ v => some (.value v)
  | fault _ f => some (.fault f)
  | finished => some .finished
  | never => none

namespace Stream

def element? (s : Stream) (n : Nat) : Option Element := (s.pull n).element?

/-- The stream begins with these values. -/
def Yields (s : Stream) (vs : List Value) : Prop :=
  ∀ (i : Nat) (v : Value), vs[i]? = some v → s.element? i = some (.value v)

/-- Where the stream ends, by itself or with a failure. -/
def EndsAt (s : Stream) (n : Nat) : Prop :=
  s.element? n = some .finished ∨ ∃ f, s.element? n = some (.fault f)

variable {s : Stream} {vs : List Value} {v : Value} {n : Nat}

theorem yields_nil (s : Stream) : s.Yields [] := fun i v here => by simp at here

theorem Yields.append_one (yields : s.Yields vs) (next : s.element? vs.length = some (.value v)) :
    s.Yields (vs ++ [v]) := by
  intro i w here
  rcases Nat.lt_or_ge i vs.length with before | behind
  · rw [List.getElem?_append_left before] at here
    exact yields i w here
  · obtain ⟨inside, same⟩ := List.getElem?_eq_some_iff.1 here
    rw [List.length_append, List.length_singleton] at inside
    obtain rfl : i = vs.length := by omega
    simp only [List.getElem_concat_length] at same
    exact same ▸ next

/-- Values stand before the end. -/
theorem Yields.length_le (yields : s.Yields vs) (ends : s.EndsAt n) : vs.length ≤ n := by
  by_contra before
  have value := yields n vs[n] (List.getElem?_eq_getElem (by omega))
  rcases ends with finished | ⟨f, failed⟩
  · rw [value] at finished
    cases finished
  · rw [value] at failed
    cases failed

end Stream

/-! ## Looks -/

/-- A look at a stream under way: whether the call is cancelled at that moment, and what time it is.
-/
structure Look where
  cancelled : Bool
  now : Nat

namespace Drive

/-- What is sent during some looks, and the ticket and the drive that are left, unless the stream is
through. -/
def watch (d : Drive) (t : Ticket) : List Look → List Reply × Option (Ticket × Drive)
  | [] => ([], some (t, d))
  | look :: rest =>
    match d.advance t look.cancelled look.now with
    | .waiting => d.watch t rest
    | .more rs t d => (rs ++ (d.watch t rest).1, (d.watch t rest).2)
    | .ended rs => (rs, none)

/-- How many elements had been pulled when a look noticed that the call is cancelled. -/
def noticed? (d : Drive) (t : Ticket) : List Look → Option Nat
  | [] => none
  | look :: rest =>
    if d.found.isNone && look.cancelled then some d.position
    else
      match d.advance t look.cancelled look.now with
      | .waiting => d.noticed? t rest
      | .more _ t d => d.noticed? t rest
      | .ended _ => none

variable {d e : Drive} {t u w : Ticket} {look : Look} {rest : List Look} {rs : List Reply}

theorem watch_of_waiting (waits : d.advance t look.cancelled look.now = .waiting) :
    d.watch t (look :: rest) = d.watch t rest := by
  rw [watch, waits]

theorem watch_of_more (more : d.advance t look.cancelled look.now = .more rs u e) :
    d.watch t (look :: rest) = (rs ++ (e.watch u rest).1, (e.watch u rest).2) := by
  rw [watch, more]

theorem watch_of_ended (ended : d.advance t look.cancelled look.now = .ended rs) :
    d.watch t (look :: rest) = (rs, none) := by
  rw [watch, ended]

/-! ## What was pulled -/

/-- These values were pulled of a stream, and all of them but the last were sent. -/
structure Pulled (s : Stream) (t : Ticket) (vs : List Value) (u : Ticket) (d : Drive) : Prop where
  stream : d.stream = s
  yields : s.Yields vs
  position : d.position = vs.length
  held : d.held = vs.getLast?
  found : ∀ e, d.found = some e → s.element? vs.length = some e
  ticket : u = t.after vs.dropLast

variable {s : Stream} {vs : List Value}

theorem pulled_start (s : Stream) (t : Ticket) (since : Nat) : Pulled s t [] t (start s since) where
  stream := rfl
  yields := s.yields_nil
  position := rfl
  held := rfl
  found := nofun
  ticket := rfl

/-- The value that is held is sent behind the others. -/
theorem Pulled.flush (pulled : Pulled s t vs u d) :
    t.outputs vs.dropLast ++ (d.flush u).1 = t.outputs vs ∧ (d.flush u).2 = t.after vs := by
  rcases List.eq_nil_or_concat vs with rfl | ⟨before, v, rfl⟩
  · have none : d.held = none := pulled.held
    simp [Drive.flush, none, pulled.ticket, Ticket.outputs]
  · have last : d.held = some v := by simp [pulled.held]
    have ticket : u = t.after before := by simpa using pulled.ticket
    rw [ticket, Drive.flush, last, List.concat_eq_append, List.dropLast_concat,
      Ticket.outputs_append, Ticket.after_append]
    exact ⟨rfl, rfl⟩

theorem element?_of_arrived {now : Nat} {e : Element} (arrived : d.arrived? now = some e) :
    d.stream.element? d.position = some e := by
  unfold arrived? at arrived
  unfold Stream.element?
  split at arrived
  · cases arrived
  · next finished =>
    cases arrived
    rw [finished]
    rfl
  · next value =>
    split at arrived <;> cases arrived
    rw [value]
    rfl
  · next fault =>
    split at arrived <;> cases arrived
    rw [fault]
    rfl

/-! ## What was sent -/

/-- What is sent of a stream, and what is left of the drive; `noticed` tells how many elements had
been pulled when a cancellation was noticed. -/
inductive Emits (s : Stream) (t : Ticket) : (noticed : Option Nat) → List Reply →
    Option (Ticket × Drive) → Prop where
  | going {vs : List Value} {u : Ticket} {d : Drive} (pulled : Pulled s t vs u d) :
      Emits s t none (t.outputs vs.dropLast) (some (u, d))
  | finished {vs : List Value} (yields : s.Yields vs)
      (ends : s.element? vs.length = some .finished) :
      Emits s t none
        (t.outputs vs.dropLast ++ [(t.after vs.dropLast).done (vs.getLast?.getD .null)]) none
  | failed {vs : List Value} {f : Fault} (yields : s.Yields vs)
      (fails : s.element? vs.length = some (.fault f)) :
      Emits s t none (t.outputs vs ++ [(t.after vs).fail f]) none
  | cancelled {vs : List Value} (yields : s.Yields vs) :
      Emits s t (some vs.length) (t.outputs vs ++ [(t.after vs).fail .cancelled]) none

/-- What one look does to what was pulled and sent. -/
theorem Pulled.advance (pulled : Pulled s t vs u d) (look : Look) :
    match d.advance u look.cancelled look.now with
    | .waiting => (d.found.isNone && look.cancelled) = false
    | .more rs w e => (d.found.isNone && look.cancelled) = false ∧
        ∃ ws, Pulled s t ws w e ∧ t.outputs vs.dropLast ++ rs = t.outputs ws.dropLast
    | .ended rs =>
        Emits s t (if d.found.isNone && look.cancelled then some vs.length else none)
          (t.outputs vs.dropLast ++ rs) none := by
  obtain ⟨sent, left⟩ := pulled.flush
  have failing (f : Fault) : t.outputs vs.dropLast ++ ((d.flush u).1 ++ [(d.flush u).2.fail f]) =
      t.outputs vs ++ [(t.after vs).fail f] := by
    rw [← List.append_assoc, sent, left]
  cases found : d.found with
  | some e =>
    have here := pulled.found e found
    simp only [Drive.advance, found]
    cases e with
    | value v =>
      refine ⟨rfl, vs ++ [v], ⟨pulled.stream, pulled.yields.append_one here, ?_, ?_, nofun, ?_⟩, ?_⟩
      · simp [pulled.position]
      · simp
      · rw [List.dropLast_concat]
        exact left
      · rw [List.dropLast_concat]
        exact sent
    | fault f =>
      simp only [act, failWith, failing]
      exact .failed pulled.yields here
    | finished =>
      simp only [act, pulled.held, pulled.ticket]
      exact .finished pulled.yields here
  | none =>
    cases tripped : look.cancelled with
    | true =>
      simp only [Drive.advance, found, if_true, failWith, failing]
      exact .cancelled pulled.yields
    | false =>
      simp only [Drive.advance, found, Bool.false_eq_true, if_false]
      cases arrived : d.arrived? look.now with
      | none => rfl
      | some e =>
        have there := element?_of_arrived arrived
        rw [pulled.stream, pulled.position] at there
        refine ⟨rfl, vs, ⟨pulled.stream, pulled.yields, pulled.position, pulled.held, ?_,
          pulled.ticket⟩, by simp⟩
        intro e' same
        cases same
        exact there

/-- What is sent behind what was sent, by any looks. -/
theorem Pulled.watch (pulled : Pulled s t vs u d) (looks : List Look) :
    Emits s t (d.noticed? u looks) (t.outputs vs.dropLast ++ (d.watch u looks).1)
      (d.watch u looks).2 := by
  induction looks generalizing vs u d with
  | nil => simpa [Drive.watch, noticed?] using Emits.going pulled
  | cons look rest ih =>
    have step := pulled.advance look
    cases progress : d.advance u look.cancelled look.now with
    | waiting =>
      rw [progress] at step
      rw [watch_of_waiting progress, noticed?, if_neg (by simp [step]), progress]
      exact ih pulled
    | more rs w e =>
      rw [progress] at step
      obtain ⟨unseen, ws, next, sent⟩ := step
      rw [watch_of_more progress, noticed?, if_neg (by simp [unseen]), progress,
        ← List.append_assoc, sent]
      exact ih next
    | ended rs =>
      rw [progress] at step
      rw [watch_of_ended progress, noticed?, progress, pulled.position]
      split
      · next seen =>
        rw [if_pos seen] at step
        exact step
      · next unseen =>
        rw [if_neg unseen] at step
        exact step

/-- Whatever was sent was paid for with the ticket. -/
theorem Emits.spend {noticed : Option Nat} {sent : List Reply} {left : Option (Ticket × Drive)}
    (emits : Emits s t noticed sent left) : ∃ held, t.Spend sent held := by
  cases emits with
  | going => exact ⟨_, .partials _⟩
  | finished => exact ⟨_, .ending _ (.done _)⟩
  | failed => exact ⟨_, .ending _ (.fail _)⟩
  | cancelled => exact ⟨_, .ending _ (.fail _)⟩

/-! ## What stands behind the end -/

/-- The same drive, of another stream. -/
def onto (s : Stream) (d : Drive) : Drive := { d with stream := s }

/-- What is left, with another stream. -/
def leftOnto (s : Stream) : Option (Ticket × Drive) → Option (Ticket × Drive) :=
  Option.map fun left => (left.1, left.2.onto s)

def progressOnto (s : Stream) : Progress → Progress
  | .waiting => .waiting
  | .more rs t d => .more rs t (d.onto s)
  | .ended rs => .ended rs

/-- A look reads the next position of a stream, and no other. -/
theorem advance_onto (s : Stream) (same : s.pull d.position = d.stream.pull d.position)
    (t : Ticket) (look : Look) :
    (d.onto s).advance t look.cancelled look.now =
      progressOnto s (d.advance t look.cancelled look.now) := by
  cases found : d.found with
  | some e =>
    simp only [Drive.advance, onto, found]
    cases e <;> rfl
  | none =>
    cases tripped : look.cancelled with
    | true => simp only [Drive.advance, onto, found, if_true, failWith, flush, progressOnto]
    | false =>
      have arrives : (d.onto s).arrived? look.now = d.arrived? look.now := by
        simp only [arrived?, onto, same]
        rfl
      simp only [Drive.advance, onto, found, Bool.false_eq_true, if_false] at arrives ⊢
      rw [arrives]
      cases d.arrived? look.now <;> rfl

/-- Streams that are the same up to an end are watched the same: nothing behind it is pulled. -/
theorem Pulled.watch_onto (pulled : Pulled s t vs u d) {s' : Stream} {k : Nat} (ends : s.EndsAt k)
    (same : ∀ i ≤ k, s'.pull i = s.pull i) (looks : List Look) :
    (d.onto s').watch u looks = ((d.watch u looks).1, leftOnto s' (d.watch u looks).2) ∧
      (d.onto s').noticed? u looks = d.noticed? u looks := by
  induction looks generalizing vs u d with
  | nil => exact ⟨rfl, rfl⟩
  | cons look rest ih =>
    have inside : d.position ≤ k := pulled.position ▸ pulled.yields.length_le ends
    have alike := advance_onto s' (pulled.stream ▸ same d.position inside) u look
    have step := pulled.advance look
    cases progress : d.advance u look.cancelled look.now with
    | waiting =>
      rw [progress] at alike
      obtain ⟨watched, seen⟩ := ih pulled
      refine ⟨by rw [watch_of_waiting alike, watch_of_waiting progress, watched], ?_⟩
      rw [noticed?, noticed?, alike, progress]
      exact congrArg (ite _ _) seen
    | more rs w e =>
      rw [progress] at alike step
      obtain ⟨-, ws, next, -⟩ := step
      obtain ⟨watched, seen⟩ := ih next
      refine ⟨by rw [watch_of_more alike, watch_of_more progress, watched], ?_⟩
      rw [noticed?, noticed?, alike, progress]
      exact congrArg (ite _ _) seen
    | ended rs =>
      rw [progress] at alike
      refine ⟨by rw [watch_of_ended alike, watch_of_ended progress]; rfl, ?_⟩
      rw [noticed?, noticed?, alike, progress]
      rfl

/-! ## The end is reached -/

theorem watch_append (d : Drive) (t : Ticket) (before behind : List Look) :
    d.watch t (before ++ behind) =
      match d.watch t before with
      | (rs, none) => (rs, none)
      | (rs, some (u, e)) => (rs ++ (e.watch u behind).1, (e.watch u behind).2) := by
  induction before generalizing d t with
  | nil => simp [Drive.watch]
  | cons look rest ih =>
    rw [List.cons_append]
    cases progress : d.advance t look.cancelled look.now with
    | waiting => rw [watch_of_waiting progress, watch_of_waiting progress, ih]
    | more rs u e =>
      rw [watch_of_more progress, watch_of_more progress, ih]
      rcases e.watch u rest with ⟨sent, _ | left⟩ <;> simp
    | ended rs => rw [watch_of_ended progress, watch_of_ended progress]

/-- A stream that is through stays so. -/
theorem watch_append_of_ended {before : List Look} (ended : (d.watch t before).2 = none)
    (behind : List Look) : d.watch t (before ++ behind) = d.watch t before := by
  rw [watch_append]
  rcases watched : d.watch t before with ⟨rs, _ | left⟩
  · rfl
  · rw [watched] at ended
    cases ended

theorem watch_of_idle {looks : List Look}
    (idle : ∀ look ∈ looks, d.advance t look.cancelled look.now = .waiting) :
    d.watch t looks = ([], some (t, d)) := by
  induction looks with
  | nil => rfl
  | cons look rest ih =>
    rw [watch_of_waiting (idle look List.mem_cons_self)]
    exact ih fun later member => idle later (List.mem_cons_of_mem look member)

/-- How many steps a stream that ends at a position is away from its end. -/
def distance (k : Nat) (d : Drive) : Nat := 2 * (k - d.position) + if d.found.isSome then 0 else 1

/-- What is there comes, when one looks late enough. -/
theorem exists_arrived {e : Element} (there : d.stream.element? d.position = some e) :
    ∃ time, ∀ now, time ≤ now → (d.arrived? now).isSome := by
  unfold Stream.element? at there
  cases pull : d.stream.pull d.position with
  | value after v => exact ⟨d.since + after, fun now late => by simp [arrived?, pull, late]⟩
  | fault after f => exact ⟨d.since + after, fun now late => by simp [arrived?, pull, late]⟩
  | finished => exact ⟨0, fun now late => by simp [arrived?, pull]⟩
  | never =>
    rw [pull] at there
    cases there

/-- Each step of a stream brings it nearer to its end. -/
theorem Pulled.distance_lt (pulled : Pulled s t vs u d) {k : Nat} (ends : s.EndsAt k)
    (more : d.advance u look.cancelled look.now = .more rs w e) :
    e.distance k < d.distance k := by
  have step := pulled.advance look
  rw [more] at step
  obtain ⟨-, ws, next, -⟩ := step
  have inside : e.position ≤ k := next.position ▸ next.yields.length_le ends
  cases found : d.found with
  | some x =>
    rw [Drive.advance, found] at more
    cases x <;> cases more
    simp only [distance, found] at inside ⊢
    simp only [Option.isSome_none, Option.isSome_some, if_true, Bool.false_eq_true, if_false]
    omega
  | none =>
    rw [Drive.advance, found] at more
    dsimp only at more
    split at more
    · cases more
    · split at more <;> cases more
      simp [distance, found]

variable {looks : Schedule Look}

/-- There is a look at any later time. -/
def Fair (looks : Schedule Look) : Prop := ∀ time, looks.Recurs fun look => time ≤ look.now

theorem Fair.behind (fair : Fair looks) (n : Nat) : Fair (looks.behind n) :=
  fun time => (fair time).behind n

/-- A stream whose elements all come does not wait for ever. -/
theorem exists_not_waiting (fair : Fair looks)
    (there : d.found = none → (d.stream.element? d.position).isSome) :
    ∃ n, d.advance t (looks n).cancelled (looks n).now ≠ .waiting := by
  cases found : d.found with
  | some e =>
    refine ⟨0, fun waits => ?_⟩
    have unfound := (of_waiting waits).1
    rw [found] at unfound
    cases unfound
  | none =>
    obtain ⟨e, here⟩ := Option.isSome_iff_exists.1 (there found)
    obtain ⟨time, comes⟩ := exists_arrived here
    obtain ⟨n, -, late⟩ := fair time 0
    refine ⟨n, fun waits => ?_⟩
    have arrived := comes _ late
    rw [(of_waiting waits).2.2] at arrived
    cases arrived

/-- A stream that ends is through after some looks. -/
theorem Pulled.reaches_end (pulled : Pulled s t vs u d) (fair : Fair looks) {k : Nat}
    (ends : s.EndsAt k) (there : ∀ i ≤ k, (s.element? i).isSome) :
    ∃ n, (d.watch u (looks.first n)).2 = none := by
  -- by how far the end is; the looks before the next step are passed over
  induction far : d.distance k using Nat.strong_induction_on generalizing vs u d looks with
  | _ size ih =>
    have inside : d.position ≤ k := pulled.position ▸ pulled.yields.length_le ends
    have moves := exists_not_waiting (t := u) fair
      fun _ => pulled.stream ▸ there d.position inside
    classical
    obtain ⟨steps, idle⟩ := And.intro (Nat.find_spec moves) fun i => @Nat.find_min _ _ moves i
    generalize Nat.find moves = n at steps idle
    have passed : d.watch u (looks.first n) = ([], some (u, d)) := by
      refine watch_of_idle fun look member => ?_
      obtain ⟨i, before, rfl⟩ := Schedule.mem_first.1 member
      exact not_not.1 (idle i before)
    cases progress : d.advance u (looks n).cancelled (looks n).now with
    | waiting => exact absurd progress steps
    | more rs w e =>
      have step := pulled.advance (looks n)
      rw [progress] at step
      obtain ⟨-, ws, next, -⟩ := step
      obtain ⟨m, ended⟩ := ih (e.distance k) (far ▸ pulled.distance_lt ends progress) next
        (fair.behind (n + 1)) rfl
      have one : d.watch u (looks.first (n + 1)) = (rs, some (w, e)) := by
        rw [looks.first_succ, watch_append, passed]
        simp only [watch_of_more progress, List.nil_append]
        simp only [Drive.watch, List.append_nil]
      refine ⟨n + 1 + m, ?_⟩
      rw [looks.first_add, watch_append, one]
      exact ended
    | ended rs =>
      refine ⟨n + 1, ?_⟩
      rw [looks.first_succ, watch_append, passed]
      simp only [watch_of_ended progress]

/-- A cancelled stream is through after two looks. -/
theorem watch_cancelled (d : Drive) (t : Ticket) (one two : Nat) :
    (d.watch t [⟨true, one⟩, ⟨true, two⟩]).2 = none := by
  have ends {d : Drive} {t : Ticket} {look : Look} {rest : List Look} (unfound : d.found = none)
      (tripped : look.cancelled = true) : (d.watch t (look :: rest)).2 = none := by
    have ended : d.advance t look.cancelled look.now =
        .ended ((d.flush t).1 ++ [(d.flush t).2.fail .cancelled]) := by
      rw [Drive.advance, unfound, tripped]
      rfl
    rw [watch_of_ended ended]
  cases found : d.found with
  | none => exact ends found rfl
  | some e =>
    cases e with
    | value v =>
      have more : d.advance t true one =
          .more (d.flush t).1 (d.flush t).2 ⟨d.stream, d.position + 1, some v, one, none⟩ := by
        rw [Drive.advance, found]
        rfl
      rw [watch_of_more more]
      exact ends rfl rfl
    | fault f | finished =>
      rw [Drive.watch, Drive.advance, found]
      rfl

/-- So it is through after some looks, when it is cancelled for good. -/
theorem ends_of_cancelled (d : Drive) (t : Ticket) {n : Nat}
    (cancelled : ∀ i, n ≤ i → (looks i).cancelled = true) :
    (d.watch t (looks.first (n + 2))).2 = none := by
  have tripped (i : Nat) (late : n ≤ i) : looks i = ⟨true, (looks i).now⟩ := by
    rw [← cancelled i late]
  have last : (looks.behind n).first 2 = [looks n, looks (n + 1)] := rfl
  rw [looks.first_add, watch_append, last, tripped n (le_refl n), tripped (n + 1) (Nat.le_succ n)]
  rcases d.watch t (looks.first n) with ⟨rs, _ | ⟨u, e⟩⟩
  · rfl
  · exact watch_cancelled e u _ _

end Drive

end Patchbay
