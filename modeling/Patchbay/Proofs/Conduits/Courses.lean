import Patchbay.Proofs.Conduits

/-!
# Courses of a connection

A client sends, reads and closes; the broker delivers and lets go of its link; pump and forwarder move,
and the pump may be stopped: in any order, each as often as it likes. A course of a connection is what
came of such acts, one after the other. What is known of a connection at any moment follows from its
course: its flags, where the packets are that went in at one end, and which of them came out at the
other.
-/

namespace Patchbay.Conduit

/-! ## What happens to a connection -/

inductive Act where
  | send (p : Packet)
  | close
  | receive
  | deliver (p : Packet)
  | unlink
  | abort
  | pump
  | forward

/-- What came of an act. A read that finds nothing may give up. -/
inductive Note where
  | sent (p : Packet)
  | refused (p : Packet) (e : TransportError)
  | closed
  | got (p : Packet)
  | failed (e : TransportError)
  | expired
  | delivered (p : Packet)
  | undelivered (p : Packet) (e : TransportError)
  | unlinked
  | aborted
  | signalled (s : Signal)
  | forwarded

/-- What comes of an act; a pump or a forwarder may have nothing to do. -/
def act? (c : Conduit) : Act → Option (Note × Conduit)
  | .send p =>
    match c.send p with
    | .ok d => some (.sent p, d)
    | .error e => some (.refused p e, c)
  | .close => some (.closed, c.close)
  | .receive =>
    match c.receive with
    | .packet p d => some (.got p, d)
    | .failed e d => some (.failed e, d)
    | .waiting => some (.expired, c)
  | .deliver p =>
    match c.deliverable with
    | .ok _ => some (.delivered p, c.deliver p)
    | .error e => some (.undelivered p e, c)
  | .unlink => some (.unlinked, c.unlink)
  | .abort => some (.aborted, c.abort)
  | .pump => c.pump?.map fun (s, d) => (.signalled s, d)
  | .forward => c.forward?.map (.forwarded, ·)

/-- What came of the acts on a new connection, in order. -/
inductive Course (capacity : Nat) : List Note → Conduit → Prop where
  | start : Course capacity [] (.start capacity)
  | act {notes : List Note} {c d : Conduit} {note : Note} (a : Act)
      (before : Course capacity notes c) (step : c.act? a = some (note, d)) :
      Course capacity (notes ++ [note]) d

/-! ## What an act can do -/

/-- Everything that can come of an act, and when. -/
inductive Happens (c : Conduit) : Note → Conduit → Prop where
  | sent {p : Packet} (sending : c.sending = true) (pumping : c.pumping = true)
      (room : c.sent.length < c.capacity) : Happens c (.sent p) { c with sent := c.sent.push p }
  | closedTo {p : Packet} (shut : c.sending = false ∨ c.pumping = false) :
      Happens c (.refused p .closed) c
  | fullFor {p : Packet} (sending : c.sending = true) (pumping : c.pumping = true)
      (full : c.capacity ≤ c.sent.length) : Happens c (.refused p .full) c
  | closed : Happens c .closed c.close
  | got {p : Packet} {rest : Queue Packet} (first : c.ready.toList = p :: rest.toList) :
      Happens c (.got p) { c with ready := rest }
  | failed (empty : c.ready.toList = []) (ended : c.forwarding = false ∨ c.reading = false) :
      Happens c (.failed .closed) c
  | expired (empty : c.ready.toList = []) (forwarding : c.forwarding = true)
      (reading : c.reading = true) : Happens c .expired c
  | delivered {p : Packet} (forwarding : c.forwarding = true) :
      Happens c (.delivered p) (c.deliver p)
  | undelivered {p : Packet} (ended : c.forwarding = false) :
      Happens c (.undelivered p .closed) c
  | unlinked : Happens c .unlinked c.unlink
  | aborted : Happens c .aborted c.abort
  | pumped {p : Packet} {rest : Queue Packet} (pumping : c.pumping = true)
      (first : c.sent.toList = p :: rest.toList) :
      Happens c (.signalled (.packet p)) { c with sent := rest }
  | left (pumping : c.pumping = true) (empty : c.sent.toList = []) (shut : c.sending = false) :
      Happens c (.signalled .closed) { c with pumping := false }
  | took {p : Packet} {rest : Queue Packet} (forwarding : c.forwarding = true)
      (free : c.held = none) (first : c.outbox.toList = p :: rest.toList) :
      Happens c .forwarded { c with held := some p, outbox := rest }
  | handed {p : Packet} (forwarding : c.forwarding = true) (held : c.held = some p)
      (reading : c.reading = true) (room : c.ready.length < c.capacity) :
      Happens c .forwarded { c with held := none, ready := c.ready.push p }
  | gaveUp {p : Packet} (forwarding : c.forwarding = true) (held : c.held = some p)
      (deaf : c.reading = false) :
      Happens c .forwarded { c with forwarding := false, held := none, outbox := .empty }
  | finished (forwarding : c.forwarding = true) (free : c.held = none)
      (empty : c.outbox.toList = []) (unlinked : c.linked = false) :
      Happens c .forwarded { c with forwarding := false }

variable {c d : Conduit} {note : Note} {a : Act} {p : Packet}

theorem happens_send (step : c.act? (.send p) = some (note, d)) : Happens c note d := by
  simp only [act?, send] at step
  split at step
  · next made =>
    split at made
    · cases made
    · next isOpen =>
      split at made
      · cases made
      · next room =>
        cases made
        cases step
        simp only [Bool.or_eq_true, Bool.not_eq_true', not_or, Bool.not_eq_false] at isOpen
        exact .sent isOpen.1 isOpen.2 (Nat.lt_of_not_le room)
  · next made =>
    cases step
    split at made
    · next shut =>
      cases made
      exact .closedTo (by simpa using shut)
    · next isOpen =>
      split at made
      · next full =>
        cases made
        simp only [Bool.or_eq_true, Bool.not_eq_true', not_or, Bool.not_eq_false] at isOpen
        exact .fullFor isOpen.1 isOpen.2 full
      · cases made

theorem happens_receive (step : c.act? .receive = some (note, d)) : Happens c note d := by
  simp only [act?, receive] at step
  cases popped : c.ready.pop? with
  | some entry =>
    simp only [popped] at step
    cases step
    exact .got (Queue.toList_of_pop? popped)
  | none =>
    have empty := Queue.pop?_eq_none_iff.1 popped
    simp only [popped] at step
    cases ends : c.forwarding && c.reading with
    | true =>
      simp only [ends, if_true] at step
      cases step
      obtain ⟨forwarding, reading⟩ := Bool.and_eq_true_iff.1 ends
      exact .expired empty forwarding reading
    | false =>
      simp only [ends, Bool.false_eq_true, if_false] at step
      cases step
      exact .failed empty (Bool.and_eq_false_iff.1 ends)

theorem happens_deliver (step : c.act? (.deliver p) = some (note, d)) : Happens c note d := by
  simp only [act?, deliverable] at step
  cases forwarding : c.forwarding with
  | true =>
    simp only [forwarding, if_true] at step
    cases step
    exact .delivered forwarding
  | false =>
    simp only [forwarding, Bool.false_eq_true, if_false] at step
    cases step
    exact .undelivered forwarding

theorem happens_pump (step : c.act? .pump = some (note, d)) : Happens c note d := by
  obtain ⟨⟨signal, e⟩, pumped, same⟩ := Option.map_eq_some_iff.1 step
  cases same
  unfold pump? at pumped
  split at pumped
  · cases pumped
  · next runs =>
    have pumping : c.pumping = true := by simpa using runs
    split at pumped
    · next popped =>
      cases pumped
      exact .pumped pumping (Queue.toList_of_pop? popped)
    · next popped =>
      split at pumped
      · cases pumped
      · next shut =>
        cases pumped
        exact .left pumping (Queue.pop?_eq_none_iff.1 popped) (by simpa using shut)

theorem happens_forward (step : c.act? .forward = some (note, d)) : Happens c note d := by
  obtain ⟨e, forwarded, same⟩ := Option.map_eq_some_iff.1 step
  cases same
  unfold forward? at forwarded
  split at forwarded
  · cases forwarded
  · next runs =>
    have forwarding : c.forwarding = true := by simpa using runs
    split at forwarded
    · next held =>
      split at forwarded
      · next deaf =>
        cases forwarded
        exact .gaveUp forwarding held (by simpa using deaf)
      · next reads =>
        split at forwarded
        · next room =>
          cases forwarded
          exact .handed forwarding held (by simpa using reads) room
        · cases forwarded
    · next free =>
      split at forwarded
      · next popped =>
        cases forwarded
        exact .took forwarding free (Queue.toList_of_pop? popped)
      · next popped =>
        split at forwarded
        · cases forwarded
        · next unlinked =>
          cases forwarded
          exact .finished forwarding free (Queue.pop?_eq_none_iff.1 popped) (by simpa using unlinked)

/-- What comes of an act is one of these. -/
theorem happens_of_act (step : c.act? a = some (note, d)) : Happens c note d := by
  cases a with
  | send p => exact happens_send step
  | close =>
    cases step
    exact .closed
  | receive => exact happens_receive step
  | deliver p => exact happens_deliver step
  | unlink =>
    cases step
    exact .unlinked
  | abort =>
    cases step
    exact .aborted
  | pump => exact happens_pump step
  | forward => exact happens_forward step

/-! ## What a course tells -/

def Note.sent? : Note → Option Packet
  | sent p => some p
  | _ => none

def Note.got? : Note → Option Packet
  | got p => some p
  | _ => none

def Note.delivered? : Note → Option Packet
  | delivered p => some p
  | _ => none

def Note.signal? : Note → Option Signal
  | signalled s => some s
  | _ => none

def Note.pumped? : Note → Option Packet
  | signalled (.packet p) => some p
  | _ => none

/-- The packets that the client sent, without those that were refused. -/
def sentIn (notes : List Note) : List Packet := notes.filterMap Note.sent?

/-- The packets that the client got. -/
def gotIn (notes : List Note) : List Packet := notes.filterMap Note.got?

/-- The packets that the broker delivered. -/
def deliveredIn (notes : List Note) : List Packet := notes.filterMap Note.delivered?

/-- What the pump turned into events. -/
def signalsIn (notes : List Note) : List Signal := notes.filterMap Note.signal?

/-- The packets among them. -/
def pumpedIn (notes : List Note) : List Packet := notes.filterMap Note.pumped?

section

variable (notes more : List Note)

@[simp] theorem sentIn_append : sentIn (notes ++ more) = sentIn notes ++ sentIn more :=
  List.filterMap_append

@[simp] theorem gotIn_append : gotIn (notes ++ more) = gotIn notes ++ gotIn more :=
  List.filterMap_append

@[simp] theorem deliveredIn_append :
    deliveredIn (notes ++ more) = deliveredIn notes ++ deliveredIn more := List.filterMap_append

@[simp] theorem signalsIn_append : signalsIn (notes ++ more) = signalsIn notes ++ signalsIn more :=
  List.filterMap_append

@[simp] theorem pumpedIn_append : pumpedIn (notes ++ more) = pumpedIn notes ++ pumpedIn more :=
  List.filterMap_append

end

/-! ## Flags -/

/-- What of a connection only says what has happened. -/
structure Flagged (capacity : Nat) (notes : List Note) (c : Conduit) : Prop where
  capacity : c.capacity = max capacity 1
  sending : c.sending = true ↔ .closed ∉ notes
  reading : c.reading = true ↔ .closed ∉ notes
  linked : c.linked = true ↔ .unlinked ∉ notes
  pumping : c.pumping = true ↔ .aborted ∉ notes ∧ .signalled .closed ∉ notes

theorem Flagged.unlinked {capacity : Nat} {notes : List Note} {c : Conduit}
    (flagged : Flagged capacity notes c) : c.linked = false ↔ .unlinked ∈ notes := by
  rw [← Bool.not_eq_true, flagged.linked, Classical.not_not]

theorem Flagged.shut {capacity : Nat} {notes : List Note} {c : Conduit}
    (flagged : Flagged capacity notes c) : c.sending = false ↔ .closed ∈ notes := by
  rw [← Bool.not_eq_true, flagged.sending, Classical.not_not]

theorem flagged_start (capacity : Nat) : Flagged capacity [] (.start capacity) where
  capacity := rfl
  sending := by simp [start]
  reading := by simp [start]
  linked := by simp [start]
  pumping := by simp [start]

variable {notes : List Note} {capacity : Nat}

/-- A note of none of the things that set a flag leaves the flags as they were. -/
theorem Flagged.frame (flagged : Flagged capacity notes c)
    (flags : (d.capacity, d.sending, d.reading, d.linked, d.pumping) =
      (c.capacity, c.sending, c.reading, c.linked, c.pumping))
    (closed : note ≠ .closed) (unlinked : note ≠ .unlinked) (aborted : note ≠ .aborted)
    (ended : note ≠ .signalled .closed) : Flagged capacity (notes ++ [note]) d := by
  simp only [Prod.mk.injEq] at flags
  obtain ⟨room, sending, reading, linked, pumping⟩ := flags
  have unset {flag : Note} (other : note ≠ flag) : flag ∈ notes ++ [note] ↔ flag ∈ notes := by
    simp [Ne.symm other]
  refine ⟨room.trans flagged.capacity, ?_, ?_, ?_, ?_⟩
  · rw [sending, flagged.sending, unset closed]
  · rw [reading, flagged.reading, unset closed]
  · rw [linked, flagged.linked, unset unlinked]
  · rw [pumping, flagged.pumping, unset aborted, unset ended]

theorem Flagged.next (flagged : Flagged capacity notes c) (happens : Happens c note d) :
    Flagged capacity (notes ++ [note]) d := by
  cases happens with
  | closed =>
    refine ⟨flagged.capacity, ?_, ?_, ?_, ?_⟩
    · simp [close]
    · simp [close]
    · simpa [close] using flagged.linked
    · simpa [close] using flagged.pumping
  | unlinked =>
    refine ⟨flagged.capacity, ?_, ?_, ?_, ?_⟩
    · simpa [unlink] using flagged.sending
    · simpa [unlink] using flagged.reading
    · simp [unlink]
    · simpa [unlink] using flagged.pumping
  | aborted =>
    refine ⟨flagged.capacity, ?_, ?_, ?_, ?_⟩
    · simpa [abort] using flagged.sending
    · simpa [abort] using flagged.reading
    · simpa [abort] using flagged.linked
    · simp [abort]
  | left pumping empty shut =>
    refine ⟨flagged.capacity, ?_, ?_, ?_, ?_⟩
    · simpa using flagged.sending
    · simpa using flagged.reading
    · simpa using flagged.linked
    · simp
  | _ => exact flagged.frame rfl (by simp) (by simp) (by simp) (by simp)

theorem Course.flagged (course : Course capacity notes c) : Flagged capacity notes c := by
  induction course with
  | start => exact flagged_start capacity
  | act a before step ih => exact ih.next (happens_of_act step)

end Patchbay.Conduit
