import Patchbay.Proofs.Conduits.Sending
import Patchbay.Proofs.Exchange.Clients

/-!
# What an exchange carries

Connections inside the process under any broker: clients attach, send, read and close, the broker hears
events, delivers and lets go of links, and pumps and forwarders move, in any order and for any number
of clients. Each connection takes its own course, whatever happens to the others, and what the broker
hears of a client is that it was accepted and then what the pump of its connection told.
-/

namespace Patchbay

variable {σ : Type}

/-- What is noted of a deed: a connection and the room in its queues, what came of an act on a
connection, or an event that the broker hears. -/
inductive Mark where
  | attached (c : ClientId) (capacity : Nat)
  | noted (c : ClientId) (note : Conduit.Note)
  | heard (e : Event)

def Mark.note? (c : ClientId) : Mark → Option Conduit.Note
  | noted d note => if d = c then some note else none
  | _ => none

def Mark.heard? : Mark → Option Event
  | heard e => some e
  | _ => none

def Sight.heard? : Sight → Option Event
  | heard _ e _ => some e
  | _ => none

/-- What was noted of the connection of a client. -/
def notesOf (c : ClientId) (marks : List Mark) : List Conduit.Note := marks.filterMap (Mark.note? c)

/-- The events about a client. -/
def eventsOf (c : ClientId) (es : List Event) : List Event := es.filter fun e => e.client = c

/-- What the broker has heard. -/
def heardIn (marks : List Mark) : List Event := marks.filterMap Mark.heard?

/-- The events that the broker has taken in a run. -/
def eventsIn (sights : List Sight) : List Event := sights.filterMap Sight.heard?

/-- What the broker has heard of a client. -/
def heardOf (c : ClientId) (marks : List Mark) : List Event := eventsOf c (heardIn marks)

section

variable (c : ClientId) (marks more : List Mark) (es fs : List Event)

@[simp] theorem notesOf_append : notesOf c (marks ++ more) = notesOf c marks ++ notesOf c more :=
  List.filterMap_append

@[simp] theorem eventsOf_append : eventsOf c (es ++ fs) = eventsOf c es ++ eventsOf c fs :=
  List.filter_append ..

@[simp] theorem heardIn_append : heardIn (marks ++ more) = heardIn marks ++ heardIn more :=
  List.filterMap_append

@[simp] theorem heardOf_append : heardOf c (marks ++ more) = heardOf c marks ++ heardOf c more := by
  simp [heardOf]

theorem notesOf_noted (d : ClientId) (note : Conduit.Note) :
    notesOf c [.noted d note] = if d = c then [note] else [] := by
  by_cases same : d = c <;> simp [notesOf, Mark.note?, same]

@[simp] theorem eventsIn_emitted (rs : List Reply) : eventsIn (rs.map .emitted) = [] := by
  simp [eventsIn, List.filterMap_map, Function.comp_def, Sight.heard?]

@[simp] theorem heardIn_signalled (signals : List Signal) :
    heardIn (signals.map fun s => .noted c (.signalled s)) = [] := by
  simp [heardIn, List.filterMap_map, Function.comp_def, Mark.heard?]

@[simp] theorem client_event (s : Signal) : (Exchange.event c s).client = c := by
  cases s <;> rfl

theorem eventsOf_event (d : ClientId) (signals : List Signal) :
    eventsOf c (signals.map (Exchange.event d)) =
      if d = c then signals.map (Exchange.event d) else [] := by
  by_cases same : d = c
  · rw [if_pos same]
    refine List.filter_eq_self.2 fun e member => ?_
    obtain ⟨s, -, rfl⟩ := List.mem_map.1 member
    simpa using same
  · rw [if_neg same]
    refine List.filter_eq_nil_iff.2 fun e member => ?_
    obtain ⟨s, -, rfl⟩ := List.mem_map.1 member
    simpa using same

end

namespace Exchange

/-! ## Deeds -/

/-- What can happen to the connections of an exchange and to the events. The broker is not asked what
it does: it may deliver to whom it can, and let go of any link at any time. -/
inductive Deed (x : Exchange σ) : List Mark → Exchange σ → Prop where
  | attach (capacity : Nat) :
      Deed x [.attached x.nextClient capacity] (x.attach (.conduit (.start capacity))).2
  | send {c : ClientId} {p : Packet} {y : Exchange σ} (sent : x.send c p = .ok y) :
      Deed x [.noted c (.sent p)] y
  | refuse {c : ClientId} {p : Packet} {e : TransportError} {w : Wire}
      (found : Table.find? x.wires c = some w) (refused : x.send c p = .error e) :
      Deed x [.noted c (.refused p e)] x
  | close {c : ClientId} {w : Wire} (found : Table.find? x.wires c = some w) :
      Deed x [.noted c .closed] (x.close c)
  | read {c : ClientId} {p : Packet} {y : Exchange σ} (got : x.receive c = .packet p y) :
      Deed x [.noted c (.got p)] y
  | fail {c : ClientId} {e : TransportError} {w : Wire} {y : Exchange σ}
      (found : Table.find? x.wires c = some w) (failed : x.receive c = .failed e y) :
      Deed x [.noted c (.failed e)] y
  | expire {c : ClientId} (waits : x.receive c = .waiting) : Deed x [.noted c .expired] x
  | deliver {c : ClientId} {p : Packet} (linked : x.links c p = .ok ()) :
      Deed x [.noted c (.delivered p)] (x.effect (.deliver c p))
  | miss {c : ClientId} {p : Packet} {e : TransportError} {w : Wire}
      (found : Table.find? x.wires c = some w) (unreached : x.links c p = .error e) :
      Deed x [.noted c (.undelivered p e)] x
  | hangUp {c : ClientId} {w : Wire} (found : Table.find? x.wires c = some w) :
      Deed x [.noted c .unlinked, .noted c .aborted] (x.effect (.hangUp c))
  | unlink {c : ClientId} {w : Conduit} (found : Table.find? x.wires c = some (.conduit w)) :
      Deed x [.noted c .unlinked] (x.setWire c (.conduit w.unlink))
  | abort {c : ClientId} {w : Conduit} (found : Table.find? x.wires c = some (.conduit w)) :
      Deed x [.noted c .aborted] (x.setWire c (.conduit w.abort))
  | pump {c : ClientId} {w v : Wire} {signals : List Signal} {y : Exchange σ}
      (found : Table.find? x.wires c = some w) (moved : w.pump? = some (signals, v))
      (pumped : x.pump? c = some y) : Deed x (signals.map fun s => .noted c (.signalled s)) y
  | forward {c : ClientId} {y : Exchange σ} (forwarded : x.forward? c = some y) :
      Deed x [.noted c .forwarded] y
  | hear {e : Event} {rest : Queue Event} (popped : x.events.pop? = some (e, rest)) :
      Deed x [.heard e] { x with events := rest }
  | other {y : Exchange σ} (wires : y.wires = x.wires) (events : y.events = x.events)
      (numbers : y.nextClient = x.nextClient) : Deed x [] y

/-- What was noted from the start of an exchange on. -/
inductive Carriage : List Mark → Exchange σ → Prop where
  | start (registry : Registry σ) : Carriage [] (start registry)
  | deed {marks new : List Mark} {x y : Exchange σ} (before : Carriage marks x)
      (deed : Deed x new y) : Carriage (marks ++ new) y

/-! ## Acts on one connection -/

variable {x y : Exchange σ} {c d : ClientId} {w v : Conduit} {p : Packet} {e : TransportError}
  {note : Conduit.Note} {a : Conduit.Act} {marks new : List Mark}

/-- A connection came to another state by an act, of which the broker is to hear what the pump told;
the other connections are as they were. -/
inductive Acted (x : Exchange σ) (c : ClientId) (note : Conduit.Note) (y : Exchange σ) : Prop where
  | of {w v : Conduit} (a : Conduit.Act) (found : Table.find? x.wires c = some (.conduit w))
      (step : w.act? a = some (note, v))
      (wires : ∀ d, Table.find? y.wires d =
        if c = d then some (.conduit v) else Table.find? x.wires d)
      (events : y.events.toList = x.events.toList ++ (Conduit.signalsIn [note]).map (event c))
      (numbers : y.nextClient = x.nextClient)

theorem acted_setWire (found : Table.find? x.wires c = some (.conduit w))
    (step : w.act? a = some (note, v)) (quiet : note.signal? = none) :
    Acted x c note (x.setWire c (.conduit v)) := by
  refine .of a found step (fun d => Table.find?_put x.wires c d _) ?_ rfl
  simp [setWire, Conduit.signalsIn, quiet]

theorem acted_same (found : Table.find? x.wires c = some (.conduit w))
    (step : w.act? a = some (note, w)) (quiet : note.signal? = none) : Acted x c note x := by
  refine .of a found step (fun d => ?_) (by simp [Conduit.signalsIn, quiet]) rfl
  split
  · next here => exact here ▸ found
  · rfl

theorem acted_modify {f : Wire → Wire} (found : Table.find? x.wires c = some (.conduit w))
    (step : w.act? a = some (note, v)) (same : f (.conduit w) = .conduit v)
    (quiet : note.signal? = none) :
    Acted x c note { x with wires := Table.modify x.wires c f } := by
  refine .of a found step (fun d => ?_) (by simp [Conduit.signalsIn, quiet]) rfl
  rw [Table.find?_modify]
  split
  · next here =>
    subst here
    rw [found, Option.map_some, same]
  · exact Option.map_id' ..

theorem acted_of_send (found : Table.find? x.wires c = some (.conduit w))
    (sent : x.send c p = .ok y) : Acted x c (.sent p) y := by
  simp only [send, found, Wire.send] at sent
  cases made : w.send p with
  | error e => simp [made, Except.map] at sent
  | ok v =>
    simp only [made, Except.map, Except.ok.injEq] at sent
    subst sent
    exact acted_setWire (a := .send p) found (by simp only [Conduit.act?, made]) rfl

theorem acted_of_refuse (found : Table.find? x.wires c = some (.conduit w))
    (refused : x.send c p = .error e) : Acted x c (.refused p e) x := by
  simp only [send, found, Wire.send] at refused
  cases made : w.send p with
  | ok v => simp [made, Except.map] at refused
  | error e' =>
    simp only [made, Except.map, Except.error.injEq] at refused
    subst refused
    exact acted_same (a := .send p) found (by simp only [Conduit.act?, made]) rfl

theorem acted_of_receive (found : Table.find? x.wires c = some (.conduit w)) :
    match x.receive c with
    | .packet p y => Acted x c (.got p) y
    | .failed e y => Acted x c (.failed e) y
    | .waiting => Acted x c .expired x := by
  simp only [receive, found, Wire.receive]
  cases made : w.receive with
  | packet p v => exact acted_setWire (a := .receive) found (by simp only [Conduit.act?, made]) rfl
  | failed e v => exact acted_setWire (a := .receive) found (by simp only [Conduit.act?, made]) rfl
  | waiting => exact acted_same (a := .receive) found (by simp only [Conduit.act?, made]) rfl

theorem acted_of_links (found : Table.find? x.wires c = some (.conduit w)) (p : Packet) :
    match x.links c p with
    | .ok _ => Acted x c (.delivered p) (x.effect (.deliver c p))
    | .error e => Acted x c (.undelivered p e) x := by
  simp only [links, found, Wire.deliverable]
  cases made : w.deliverable with
  | ok =>
    exact acted_modify (a := .deliver p) found (by simp only [Conduit.act?, made]) rfl rfl
  | error e => exact acted_same (a := .deliver p) found (by simp only [Conduit.act?, made]) rfl

theorem acted_of_forward (found : Table.find? x.wires c = some (.conduit w))
    (forwarded : x.forward? c = some y) : Acted x c .forwarded y := by
  simp only [forward?, found, Wire.forward?, Option.bind_eq_bind, Option.bind_some] at forwarded
  obtain ⟨u, moved, same⟩ := Option.bind_eq_some_iff.1 forwarded
  cases same
  obtain ⟨v, made, rfl⟩ := Option.map_eq_some_iff.1 moved
  exact acted_setWire (a := .forward) found (by simp only [Conduit.act?, made, Option.map_some]) rfl

/-- The pump of a connection inside the process tells one thing at a time. -/
theorem acted_of_pump {u : Wire} {signals : List Signal}
    (found : Table.find? x.wires c = some (.conduit w))
    (moved : (Wire.conduit w).pump? = some (signals, u)) (pumped : x.pump? c = some y) :
    ∃ s, signals = [s] ∧ Acted x c (.signalled s) y := by
  obtain ⟨⟨s, v⟩, made, same⟩ := Option.map_eq_some_iff.1 moved
  cases same
  simp only [pump?, found, Wire.pump?, made, Option.map_some, Option.bind_eq_bind,
    Option.bind_some, Option.some.injEq] at pumped
  subst pumped
  refine ⟨s, rfl, .of .pump found (by simp only [Conduit.act?, made, Option.map_some])
    (fun d => Table.find?_put x.wires c d _) ?_ rfl⟩
  exact Queue.toList_pushAll ..

/-! ## What a deed does -/

/-- Everything that a deed can come to. -/
inductive Done (x : Exchange σ) : List Mark → Exchange σ → Prop where
  | attached (capacity : Nat) :
      Done x [.attached x.nextClient capacity] (x.attach (.conduit (.start capacity))).2
  | acted {c : ClientId} {note : Conduit.Note} {y : Exchange σ} (acted : Acted x c note y) :
      Done x [.noted c note] y
  | twice {c : ClientId} {first second : Conduit.Note} {y z : Exchange σ} (acted : Acted x c first y)
      (again : Acted y c second z) : Done x [.noted c first, .noted c second] z
  | heard {e : Event} {rest : Queue Event} (popped : x.events.pop? = some (e, rest)) :
      Done x [.heard e] { x with events := rest }
  | idle {y : Exchange σ} (wires : y.wires = x.wires) (events : y.events = x.events)
      (numbers : y.nextClient = x.nextClient) : Done x [] y

/-- To hang up is to let go of the link and to stop the pump. -/
theorem done_of_hangUp (found : Table.find? x.wires c = some (.conduit w)) :
    Done x [.noted c .unlinked, .noted c .aborted] (x.effect (.hangUp c)) := by
  have first : Acted x c .unlinked (x.setWire c (.conduit w.unlink)) :=
    acted_setWire (a := .unlink) found rfl rfl
  have there : Table.find? (x.setWire c (.conduit w.unlink)).wires c = some (.conduit w.unlink) := by
    rw [setWire, Table.find?_put, if_pos rfl]
  refine .twice first (.of .abort there rfl (fun d => ?_) (List.append_nil _).symm rfl)
  simp only [effect, setWire, Table.find?_modify, Table.find?_put]
  split
  · next here =>
    subst here
    rw [found]
    rfl
  · exact Option.map_id' ..

/-- Every connection is one inside the process. -/
def Inside (x : Exchange σ) : Prop :=
  ∀ c u, Table.find? x.wires c = some u → ∃ w, u = .conduit w

theorem Inside.of_find (inside : x.Inside) {u : Wire} (found : Table.find? x.wires c = some u) :
    ∃ w, Table.find? x.wires c = some (.conduit w) := by
  obtain ⟨w, rfl⟩ := inside c u found
  exact ⟨w, found⟩

theorem Deed.done (deed : Deed x new y) (inside : x.Inside) : Done x new y := by
  cases deed with
  | attach capacity => exact .attached capacity
  | @send c p _ sent =>
    cases found : Table.find? x.wires c with
    | none => simp [Exchange.send, found] at sent
    | some u =>
      obtain ⟨w, found⟩ := inside.of_find found
      exact .acted (acted_of_send found sent)
  | refuse found refused =>
    obtain ⟨w, found⟩ := inside.of_find found
    exact .acted (acted_of_refuse found refused)
  | close found =>
    obtain ⟨w, found⟩ := inside.of_find found
    exact .acted (acted_modify (a := .close) found rfl rfl rfl)
  | @read c p _ got =>
    cases found : Table.find? x.wires c with
    | none => simp [receive, found] at got
    | some u =>
      obtain ⟨w, found⟩ := inside.of_find found
      have acted := acted_of_receive found
      rw [got] at acted
      exact .acted acted
  | fail found failed =>
    obtain ⟨w, found⟩ := inside.of_find found
    have acted := acted_of_receive found
    rw [failed] at acted
    exact .acted acted
  | @expire c waits =>
    cases found : Table.find? x.wires c with
    | none => simp [receive, found] at waits
    | some u =>
      obtain ⟨w, found⟩ := inside.of_find found
      have acted := acted_of_receive found
      rw [waits] at acted
      exact .acted acted
  | @deliver c p linked =>
    cases found : Table.find? x.wires c with
    | none => simp [links, found] at linked
    | some u =>
      obtain ⟨w, found⟩ := inside.of_find found
      have acted := acted_of_links found p
      rw [linked] at acted
      exact .acted acted
  | @miss c p e _ found unreached =>
    obtain ⟨w, found⟩ := inside.of_find found
    have acted := acted_of_links found p
    rw [unreached] at acted
    exact .acted acted
  | @hangUp c _ found =>
    obtain ⟨w, found⟩ := inside.of_find found
    exact done_of_hangUp found
  | unlink found => exact .acted (acted_setWire (a := .unlink) found rfl rfl)
  | abort found => exact .acted (acted_setWire (a := .abort) found rfl rfl)
  | pump found moved pumped =>
    obtain ⟨w, rfl⟩ := inside _ _ found
    obtain ⟨s, rfl, acted⟩ := acted_of_pump found moved pumped
    exact .acted acted
  | @forward c _ forwarded =>
    cases found : Table.find? x.wires c with
    | none => simp [forward?, found] at forwarded
    | some u =>
      obtain ⟨w, found⟩ := inside.of_find found
      exact .acted (acted_of_forward found forwarded)
  | hear popped => exact .heard popped
  | other wires events numbers => exact .idle wires events numbers

/-! ## One client -/

/-- How a client stands: there is no connection under its number, or what was noted of its connection
is a course of it, and what the broker has heard of it and what waits to be heard are that it was
accepted and then what its pump told. -/
inductive Stand (c : ClientId) (marks : List Mark) (x : Exchange σ) : Prop where
  | absent (unused : x.nextClient ≤ c) (none : Table.find? x.wires c = none)
      (unattached : ∀ k, .attached c k ∉ marks) (silent : notesOf c marks = [])
      (unheard : heardOf c marks ++ eventsOf c x.events.toList = [])
  | present (capacity : Nat) (w : Conduit) (used : c < x.nextClient)
      (attached : ∀ k, .attached c k ∈ marks ↔ k = capacity)
      (found : Table.find? x.wires c = some (.conduit w))
      (course : Conduit.Course capacity (notesOf c marks) w)
      (told : heardOf c marks ++ eventsOf c x.events.toList =
        .accepted c :: (Conduit.signalsIn (notesOf c marks)).map (event c))

theorem stand_start (registry : Registry σ) (c : ClientId) : Stand c [] (start registry) :=
  .absent (Nat.zero_le c) rfl (by simp) rfl rfl

/-- A client stands as it stood where nothing is done to its connection. -/
theorem Stand.frame (stand : Stand c marks x) (numbers : y.nextClient ≤ c ↔ x.nextClient ≤ c)
    (wire : Table.find? y.wires c = Table.find? x.wires c) (unattached : ∀ k, .attached c k ∉ new)
    (silent : notesOf c new = [])
    (events : heardOf c new ++ eventsOf c y.events.toList = eventsOf c x.events.toList) :
    Stand c (marks ++ new) y := by
  have notes : notesOf c (marks ++ new) = notesOf c marks := by
    rw [notesOf_append, silent, List.append_nil]
  have heard : heardOf c (marks ++ new) ++ eventsOf c y.events.toList =
      heardOf c marks ++ eventsOf c x.events.toList := by
    rw [heardOf_append, List.append_assoc, events]
  cases stand with
  | absent unused none fresh still unheard =>
    exact .absent (numbers.2 unused) (wire.trans none) (by simp [fresh, unattached])
      (notes.trans still) (heard.trans unheard)
  | present capacity w used attached found course told =>
    have stays : c < y.nextClient := Nat.lt_of_not_le (mt numbers.1 (Nat.not_le_of_lt used))
    refine .present capacity w stays (fun k => ?_) (wire.trans found) (notes ▸ course) ?_
    · simp [attached, unattached]
    · rw [heard, told, notes]

/-- A client that attaches has a new connection, and the broker is to hear that it was accepted. -/
theorem Stand.born (stand : Stand x.nextClient marks x) (capacity : Nat) :
    Stand x.nextClient (marks ++ [.attached x.nextClient capacity])
      (x.attach (.conduit (.start capacity))).2 := by
  cases stand with
  | present _ _ used => exact absurd used (Nat.lt_irrefl _)
  | absent unused none unattached silent unheard =>
    obtain ⟨unheard, unseen⟩ := List.append_eq_nil_iff.1 unheard
    have quiet : notesOf x.nextClient (marks ++ [.attached x.nextClient capacity]) = [] := by
      rw [notesOf_append, silent]
      rfl
    have waits : eventsOf x.nextClient (x.events.push (.accepted x.nextClient)).toList =
        [.accepted x.nextClient] := by
      rw [Queue.toList_push, eventsOf_append, unseen]
      simp [eventsOf, Event.client]
    refine .present capacity (.start capacity) (Nat.lt_succ_self _)
      (fun k => by simp [unattached]) ?_ (quiet ▸ .start) ?_
    · simp [attach, Table.find?_append, none, Table.find?_cons]
    · rw [quiet, heardOf_append, unheard]
      exact waits

/-- What comes of an act on a client's connection is noted, and what the pump told waits to be heard. -/
theorem Stand.acted (stand : Stand c marks x) (acted : Acted x c note y) :
    Stand c (marks ++ [.noted c note]) y := by
  cases acted with
  | @of w v a found step wires events numbers =>
    have alone : notesOf c [.noted c note] = [note] := by rw [notesOf_noted, if_pos rfl]
    cases stand with
    | absent unused none =>
      rw [none] at found
      cases found
    | present capacity u used attached there course told =>
      cases there.symm.trans found
      refine .present capacity v (numbers ▸ used) (fun k => ?_) ?_ ?_ ?_
      · rw [List.mem_append, ← attached k]
        simp
      · rw [wires, if_pos rfl]
      · rw [notesOf_append, alone]
        exact course.act a step
      · have unheard : heardOf c [.noted c note] = [] := rfl
        rw [heardOf_append, unheard, List.append_nil, events, eventsOf_append, eventsOf_event,
          if_pos rfl, ← List.append_assoc, told, notesOf_append, alone, Conduit.signalsIn_append,
          List.map_append, List.cons_append]

/-- So it is whosever connection is acted on: the other clients stand as they stood. -/
theorem Stand.beside (stand : Stand c marks x) (acted : Acted x d note y) :
    Stand c (marks ++ [.noted d note]) y := by
  by_cases here : d = c
  · subst here
    exact stand.acted acted
  · cases acted with
    | of a found step wires events numbers =>
      refine stand.frame (by rw [numbers]) (by rw [wires, if_neg here]) (by simp) ?_ ?_
      · rw [notesOf_noted, if_neg here]
      · change eventsOf c y.events.toList = _
        rw [events, eventsOf_append, eventsOf_event, if_neg here, List.append_nil]

theorem Stand.next (stand : Stand c marks x) (done : Done x new y) : Stand c (marks ++ new) y := by
  cases done with
  | attached capacity =>
    by_cases here : x.nextClient = c
    · exact here ▸ Stand.born (here ▸ stand) capacity
    · refine stand.frame ?_ ?_ (by simp [Ne.symm here]) rfl ?_
      · exact Nat.succ_le_iff.trans ⟨Nat.le_of_lt, fun le => Nat.lt_of_le_of_ne le here⟩
      · simp [attach, Table.find?_append, Table.find?_cons, here]
      · change eventsOf c (x.events.push (.accepted x.nextClient)).toList = _
        rw [Queue.toList_push, eventsOf_append]
        simp [eventsOf, Event.client, here]
  | acted acted => exact stand.beside acted
  | @twice d first second _ _ acted again =>
    have both := (stand.beside acted).beside again
    rwa [List.append_assoc] at both
  | @heard e rest popped =>
    refine stand.frame Iff.rfl rfl (by simp) rfl ?_
    change eventsOf c [e] ++ eventsOf c rest.toList = _
    rw [← eventsOf_append, Queue.toList_of_pop? popped]
    rfl
  | idle wires events numbers =>
    refine stand.frame (by rw [numbers]) (by rw [wires]) (by simp) rfl ?_
    rw [events]
    rfl

theorem Stand.conduit (stand : Stand c marks x) {u : Wire}
    (found : Table.find? x.wires c = some u) : ∃ w, u = .conduit w := by
  cases stand with
  | absent unused none =>
    rw [none] at found
    cases found
  | present _ w _ _ there =>
    cases there.symm.trans found
    exact ⟨w, rfl⟩

/-- Whatever is done to an exchange, each client stands in one of these two ways. -/
theorem Carriage.stand (run : Carriage marks x) (c : ClientId) : Stand c marks x := by
  induction run generalizing c with
  | start registry => exact stand_start registry c
  | deed before deed ih => exact (ih c).next (deed.done fun d u found => (ih d).conduit found)

/-- A client that has attached has a connection, and what was noted of it is a course of it. -/
theorem Carriage.attached (run : Carriage marks x) {capacity : Nat}
    (attached : .attached c capacity ∈ marks) :
    ∃ w, Table.find? x.wires c = some (.conduit w) ∧
      Conduit.Course capacity (notesOf c marks) w ∧
      heardOf c marks ++ eventsOf c x.events.toList =
        .accepted c :: (Conduit.signalsIn (notesOf c marks)).map (event c) := by
  cases run.stand c with
  | absent unused none unattached => exact absurd attached (unattached capacity)
  | present k w used known found course told =>
    obtain rfl := (known capacity).1 attached
    exact ⟨w, found, course, told⟩

/-! ## Runs -/

theorem Carriage.inside (run : Carriage marks x) : x.Inside := fun c _ found =>
  (run.stand c).conduit found

theorem Carriage.other (run : Carriage marks x) (wires : y.wires = x.wires)
    (events : y.events = x.events) (numbers : y.nextClient = x.nextClient) : Carriage marks y := by
  have after := run.deed (.other wires events numbers)
  rwa [List.append_nil] at after

/-- What the broker does to one connection leaves the links open that are. -/
theorem links_effect (inside : x.Inside) (linked : x.links c p = .ok ()) (e : Effect) :
    (x.effect e).links c p = .ok () := by
  cases found : Table.find? x.wires c with
  | none => simp [links, found] at linked
  | some u =>
    obtain ⟨w, rfl⟩ := inside c u found
    simp only [links, found] at linked
    cases e with
    | request r => simpa only [links, effect, found] using linked
    | deliver d q =>
      simp only [links, effect, Table.find?_modify, found, Option.map_some]
      split <;> exact linked
    | hangUp d =>
      simp only [links, effect, Table.find?_modify, found, Option.map_some]
      split <;> exact linked

/-- What the broker does is a deed, if it delivers over open links only. -/
theorem Carriage.effect (run : Carriage marks x) {e : Effect}
    (linked : ∀ c p, e = .deliver c p → x.links c p = .ok ()) :
    ∃ more, Carriage (marks ++ more) (x.effect e) ∧ heardIn more = [] := by
  cases e with
  | deliver c p => exact ⟨_, run.deed (.deliver (linked c p rfl)), rfl⟩
  | hangUp c =>
    cases found : Table.find? x.wires c with
    | none =>
      have unchanged := Table.modify_of_not_mem Wire.drop (Table.find?_eq_none_iff.1 found)
      exact ⟨[], run.deed (.other unchanged rfl rfl), rfl⟩
    | some u => exact ⟨_, run.deed (.hangUp found), rfl⟩
  | request r => exact ⟨[], run.deed (.other rfl rfl rfl), rfl⟩

theorem Carriage.effects (run : Carriage marks x) {es : List Effect}
    (linked : ∀ c p, .deliver c p ∈ es → x.links c p = .ok ()) :
    ∃ more, Carriage (marks ++ more) (es.foldl Exchange.effect x) ∧ heardIn more = [] := by
  induction es generalizing x marks with
  | nil => exact ⟨[], (List.append_nil marks).symm ▸ run, rfl⟩
  | cons e rest ih =>
    obtain ⟨first, after, quiet⟩ :=
      run.effect fun c p same => linked c p (same ▸ List.mem_cons_self)
    obtain ⟨more, behind, still⟩ := ih after fun c p member =>
      links_effect run.inside (linked c p (List.mem_cons_of_mem e member)) e
    rw [List.append_assoc] at behind
    exact ⟨first ++ more, behind, by rw [heardIn_append, quiet, still, List.append_nil]⟩

/-- What the broker does at once comes one deed after the other. -/
theorem Carriage.apply (run : Carriage marks x) {o : Broker.Outcome}
    (linked : ∀ c p, .deliver c p ∈ o.2 → x.links c p = .ok ()) :
    ∃ more, Carriage (marks ++ more) (x.apply o) ∧ heardIn more = [] :=
  (run.other (y := { x with broker := some o.1 }) rfl rfl rfl).effects linked

/-- Whatever turn is taken, it is a deed or some. -/
theorem Carriage.turn {sights seen : List Sight} (run : Carriage marks x) (wired : Wired sights x)
    {t : Turn σ} (step : x.turn? t = some (seen, y)) :
    ∃ more, Carriage (marks ++ more) y ∧ heardIn more = eventsIn seen := by
  obtain ⟨b, broker, plain⟩ := wired.broker
  cases t with
  | attach capacity =>
    cases step
    exact ⟨_, run.deed (.attach capacity), rfl⟩
  | send c p =>
    simp only [turn?] at step
    split at step
    · next sent =>
      cases step
      exact ⟨_, run.deed (.send sent), rfl⟩
    · cases step
  | close c =>
    obtain ⟨w, found, same⟩ := Option.map_eq_some_iff.1 step
    cases same
    exact ⟨_, run.deed (.close found), rfl⟩
  | receive c =>
    simp only [turn?] at step
    split at step
    · next got =>
      cases step
      exact ⟨_, run.deed (.read got), rfl⟩
    · cases step
    · cases step
  | pump c =>
    obtain ⟨z, pumped, same⟩ := Option.map_eq_some_iff.1 step
    cases same
    obtain ⟨w, found, made⟩ := Option.bind_eq_some_iff.1 pumped
    obtain ⟨⟨signals, v⟩, moved, -⟩ := Option.bind_eq_some_iff.1 made
    exact ⟨_, run.deed (.pump found moved pumped), heardIn_signalled c signals⟩
  | hear =>
    obtain ⟨_, same, step⟩ := Option.bind_eq_some_iff.1 step
    cases broker.symm.trans same
    obtain ⟨⟨e, rest⟩, popped, step⟩ := Option.bind_eq_some_iff.1 step
    cases step
    rw [wired.running.2]
    obtain ⟨more, after, quiet⟩ := (run.deed (.hear popped)).apply fun c p delivered =>
      plain.handle_linked wired.carries delivered
    rw [List.append_assoc] at after
    exact ⟨_, after, by rw [heardIn_append, quiet]; rfl⟩
  | answer =>
    obtain ⟨_, same, step⟩ := Option.bind_eq_some_iff.1 step
    cases broker.symm.trans same
    obtain ⟨⟨r, rest⟩, popped, step⟩ := Option.bind_eq_some_iff.1 step
    cases step
    have idle := run.other (y := { x with replies := rest }) rfl rfl rfl
    exact idle.apply fun c p delivered => plain.sendAll_linked wired.carries delivered
  | take =>
    obtain ⟨⟨r, rest⟩, popped, step⟩ := Option.bind_eq_some_iff.1 step
    obtain ⟨m, moved, step⟩ := Option.bind_eq_some_iff.1 step
    cases step
    exact ⟨[], run.deed (.other rfl rfl rfl), (eventsIn_emitted m.replies).symm⟩
  | work l =>
    simp only [turn?, work?] at step
    split at step
    · obtain ⟨m, moved, same⟩ := Option.map_eq_some_iff.1 step
      cases same
      exact ⟨[], run.deed (.other rfl rfl rfl), (eventsIn_emitted m.replies).symm⟩
    · cases step
  | forward c =>
    obtain ⟨z, forwarded, same⟩ := Option.map_eq_some_iff.1 step
    cases same
    exact ⟨_, run.deed (.forward forwarded), rfl⟩
  | wait now =>
    cases step
    exact ⟨[], run.deed (.other rfl rfl rfl), rfl⟩
  | exchange registry =>
    cases step
    exact ⟨[], run.deed (.other rfl rfl rfl), rfl⟩

/-- What a run carries, and that the broker hears in it what it takes. -/
theorem Run.carriage {sights : List Sight} (run : Run sights x) :
    ∃ marks, Carriage marks x ∧ heardIn marks = eventsIn sights := by
  induction run with
  | start registry => exact ⟨[], .start registry, rfl⟩
  | turn t before step ih =>
    obtain ⟨marks, carried, heard⟩ := ih
    obtain ⟨more, after, told⟩ := carried.turn before.wired step
    refine ⟨marks ++ more, after, ?_⟩
    rw [heardIn_append, heard, told]
    exact List.filterMap_append.symm

end Exchange

end Patchbay
