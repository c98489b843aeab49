import Patchbay.Proofs.Conduits.Courses

/-!
# Sending to the broker

What the pump tells the broker is the packets that the client sent, from the first on, each once and in
order; and when the client has closed and there is no packet left, that it has closed, and then nothing
more. A packet is accepted exactly when the client has not closed, the pump was not stopped and fewer
packets wait for the pump than there is room for.
-/

namespace Patchbay.Conduit

variable {c d : Conduit} {note : Note} {notes : List Note} {capacity : Nat} {p : Packet}

/-! ## What the pump tells -/

/-- How a connection stands towards the broker: the pump tells packets, or it has told the end. -/
inductive Told (notes : List Note) (c : Conduit) : Prop where
  | going (signals : signalsIn notes = (pumpedIn notes).map .packet)
      (early : pumpedIn notes <+: sentIn notes)
      (left : c.pumping = true → pumpedIn notes ++ c.sent.toList = sentIn notes)
  | ended (signals : signalsIn notes = (pumpedIn notes).map .packet ++ [.closed])
      (all : pumpedIn notes = sentIn notes) (closed : .closed ∈ notes)
      (stopped : c.pumping = false)

theorem told_start (capacity : Nat) : Told [] (start capacity) :=
  .going rfl (List.prefix_refl _) fun _ => rfl

/-- A pump that moves has told packets only, and has the others before it. -/
theorem Told.of_pumping (told : Told notes c) (pumping : c.pumping = true) :
    signalsIn notes = (pumpedIn notes).map .packet ∧
      pumpedIn notes ++ c.sent.toList = sentIn notes := by
  cases told with
  | going signals early left => exact ⟨signals, left pumping⟩
  | ended signals all closed stopped => exact absurd (stopped.symm.trans pumping) (by simp)

/-- What is neither a packet that is sent nor a move of the pump tells the broker nothing. -/
theorem Told.quiet (told : Told notes c) (sent : note.sent? = none) (signal : note.signal? = none)
    (pumped : note.pumped? = none)
    (left : d.pumping = true → c.pumping = true ∧ d.sent = c.sent) : Told (notes ++ [note]) d := by
  have same_sent : sentIn (notes ++ [note]) = sentIn notes := by
    simp [sentIn, List.filterMap_append, sent]
  have same_pumped : pumpedIn (notes ++ [note]) = pumpedIn notes := by
    simp [pumpedIn, List.filterMap_append, pumped]
  have same_signals : signalsIn (notes ++ [note]) = signalsIn notes := by
    simp [signalsIn, List.filterMap_append, signal]
  cases told with
  | going signals early rest =>
    refine .going (by rw [same_signals, same_pumped, signals]) ?_ fun pumps => ?_
    · rwa [same_sent, same_pumped]
    · obtain ⟨pumping, same⟩ := left pumps
      rw [same_sent, same_pumped, same, rest pumping]
  | ended signals all closed stopped =>
    refine .ended (by rw [same_signals, same_pumped, signals]) (by rw [same_sent, same_pumped, all])
      (List.mem_append_left _ closed) ?_
    cases pumps : d.pumping with
    | false => rfl
    | true => exact absurd (stopped.symm.trans (left pumps).1) (by simp)

theorem Told.next (told : Told notes c) (flagged : Flagged capacity notes c)
    (happens : Happens c note d) : Told (notes ++ [note]) d := by
  cases happens with
  | @sent p sending pumping room =>
    obtain ⟨signals, left⟩ := told.of_pumping pumping
    have same_pumped : pumpedIn (notes ++ [.sent p]) = pumpedIn notes := by
      rw [pumpedIn_append]
      exact List.append_nil _
    have whole : pumpedIn notes ++ (c.sent.push p).toList = sentIn (notes ++ [.sent p]) := by
      rw [Queue.toList_push, ← List.append_assoc, left, sentIn_append]
      rfl
    refine .going ?_ ?_ fun _ => by rw [same_pumped, whole]
    · rw [signalsIn_append, same_pumped, signals]
      exact List.append_nil _
    · rw [same_pumped]
      exact ⟨_, whole⟩
  | @pumped p rest pumping first =>
    obtain ⟨signals, left⟩ := told.of_pumping pumping
    have one_more : pumpedIn (notes ++ [.signalled (.packet p)]) = pumpedIn notes ++ [p] :=
      pumpedIn_append ..
    have same_sent : sentIn (notes ++ [.signalled (.packet p)]) = sentIn notes := by
      rw [sentIn_append]
      exact List.append_nil _
    have whole : (pumpedIn notes ++ [p]) ++ rest.toList = sentIn notes := by
      rw [← left, first, List.append_assoc]
      rfl
    refine .going ?_ ?_ fun _ => by rw [one_more, same_sent, whole]
    · rw [signalsIn_append, one_more, signals, List.map_append]
      rfl
    · rw [one_more, same_sent]
      exact ⟨_, whole⟩
  | left pumping empty shut =>
    obtain ⟨signals, left⟩ := told.of_pumping pumping
    rw [empty, List.append_nil] at left
    have same_pumped : pumpedIn (notes ++ [.signalled .closed]) = pumpedIn notes := by
      rw [pumpedIn_append]
      exact List.append_nil _
    refine .ended ?_ ?_ (List.mem_append_left _ (flagged.shut.1 shut)) rfl
    · rw [signalsIn_append, same_pumped, signals]
      rfl
    · rw [same_pumped, left, sentIn_append]
      exact (List.append_nil _).symm
  | aborted => exact told.quiet rfl rfl rfl fun pumps => by cases pumps
  | _ => exact told.quiet rfl rfl rfl fun pumps => ⟨pumps, rfl⟩

theorem Course.told (course : Course capacity notes c) : Told notes c := by
  induction course with
  | start => exact told_start capacity
  | act a before step ih => exact ih.next before.flagged (happens_of_act step)

/-! ## What is accepted -/

theorem Happens.sent_bounded (happens : Happens c note d) (bounded : c.sent.length ≤ c.capacity) :
    d.sent.length ≤ d.capacity := by
  cases happens with
  | @sent p sending pumping room =>
    have size : (c.sent.push p).length = c.sent.length + 1 := by simp [← Queue.length_toList]
    dsimp only
    rw [size]
    exact room
  | @pumped p rest pumping first =>
    have size : c.sent.length = rest.length + 1 := by simpa using congrArg List.length first
    rw [size] at bounded
    exact Nat.le_of_succ_le bounded
  | aborted => exact Nat.zero_le _
  | _ => exact bounded

theorem Course.sent_bounded (course : Course capacity notes c) : c.sent.length ≤ c.capacity := by
  induction course with
  | start => exact Nat.zero_le _
  | act a before step ih => exact (happens_of_act step).sent_bounded ih

/-- How many packets wait for the pump. -/
def waiting (notes : List Note) : Nat := (sentIn notes).length - (pumpedIn notes).length

/-- The pump reads until it is stopped, or has told the end. -/
theorem Course.pumping_iff (course : Course capacity notes c) (isOpen : .closed ∉ notes) :
    c.pumping = true ↔ .aborted ∉ notes := by
  rw [course.flagged.pumping, and_iff_left_iff_imp]
  intro _ told
  have member : Signal.closed ∈ signalsIn notes := List.mem_filterMap.2 ⟨_, told, rfl⟩
  cases course.told with
  | going signals early left =>
    rw [signals] at member
    simp at member
  | ended signals all closed stopped => exact isOpen closed

theorem Course.sent_length (course : Course capacity notes c) (pumping : c.pumping = true) :
    c.sent.length = waiting notes := by
  have left := congrArg List.length (course.told.of_pumping pumping).2
  rw [List.length_append, Queue.length_toList] at left
  unfold waiting
  omega

/-- When a packet is accepted, and why it is refused. -/
theorem Course.send_cases (course : Course capacity notes c) (p : Packet) :
    (.closed ∉ notes ∧ .aborted ∉ notes ∧ waiting notes < max capacity 1 ∧
        c.send p = .ok { c with sent := c.sent.push p }) ∨
      (.closed ∉ notes ∧ .aborted ∉ notes ∧ waiting notes = max capacity 1 ∧
        c.send p = .error .full) ∨
      ((.closed ∈ notes ∨ .aborted ∈ notes) ∧ c.send p = .error .closed) := by
  have flagged := course.flagged
  by_cases isOpen : .closed ∈ notes
  · have shut := flagged.shut.2 isOpen
    exact .inr (.inr ⟨.inl isOpen, by simp [send, shut]⟩)
  · have sending := flagged.sending.2 isOpen
    have reads := course.pumping_iff isOpen
    cases pumping : c.pumping with
    | false =>
      have stopped : .aborted ∈ notes := by
        rwa [pumping, Bool.false_eq_true, false_iff, Classical.not_not] at reads
      exact .inr (.inr ⟨.inr stopped, by simp [send, pumping]⟩)
    | true =>
      have going := reads.1 pumping
      have size := course.sent_length pumping
      have bounded := course.sent_bounded
      rw [size, flagged.capacity] at bounded
      rcases Nat.lt_or_eq_of_le bounded with room | full
      · refine .inl ⟨isOpen, going, room, ?_⟩
        simp only [send, sending, pumping, size, flagged.capacity, Bool.not_true, Bool.or_self,
          Bool.false_eq_true, if_false]
        exact if_neg (Nat.not_le_of_lt room)
      · refine .inr (.inl ⟨isOpen, going, full, ?_⟩)
        simp only [send, sending, pumping, size, flagged.capacity, Bool.not_true, Bool.or_self,
          Bool.false_eq_true, if_false]
        exact if_pos (Nat.le_of_eq full.symm)

end Patchbay.Conduit
