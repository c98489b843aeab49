import Patchbay.Proofs.Exchange.Carriage

/-!
# What the broker hears of a client

However sends, pumps, closings and dropped links interleave, the broker hears of a client that it was
accepted, then the packets that it sent, from the first on, and at last, once it has closed and all of
them were heard, that it has closed.
-/

namespace Patchbay.Exchange

variable {σ : Type} {x y : Exchange σ} {c : ClientId} {marks new : List Mark}
  {sent : List Packet} {shut : Prop} {es fs : List Event}

open Conduit (signalsIn sentIn pumpedIn waiting Told)

/-- What the broker may have heard of a client that sent these packets, and closed or not. -/
inductive InOrder (c : ClientId) (sent : List Packet) (shut : Prop) : List Event → Prop where
  | nothing : InOrder c sent shut []
  | packets (heard : List Packet) (early : heard <+: sent) :
      InOrder c sent shut (.accepted c :: heard.map (.packet c))
  | all (closed : shut) : InOrder c sent shut (.accepted c :: sent.map (.packet c) ++ [.closed c])

/-- It is in order at every moment before, too. -/
theorem InOrder.before (inOrder : InOrder c sent shut es) (early : fs <+: es) :
    InOrder c sent shut fs := by
  have of_packets {heard : List Packet} (part : heard <+: sent)
      (early : fs <+: .accepted c :: heard.map (.packet c)) : InOrder c sent shut fs := by
    rcases List.prefix_cons_iff.1 early with rfl | ⟨rest, rfl, behind⟩
    · exact .nothing
    · obtain ⟨fewer, first, rfl⟩ := List.prefix_map_iff.1 behind
      exact .packets fewer (first.trans part)
  cases inOrder with
  | nothing =>
    obtain rfl := List.prefix_nil.1 early
    exact .nothing
  | packets heard part => exact of_packets part early
  | all closed =>
    rcases List.prefix_concat_iff.1 early with rfl | early
    · exact .all closed
    · exact of_packets (List.prefix_refl sent) early

/-- What the pump of a connection tells is in order. -/
theorem inOrder_of_told {notes : List Conduit.Note} {w : Conduit} (told : Told notes w) :
    InOrder c (sentIn notes) (.closed ∈ notes)
      (.accepted c :: (signalsIn notes).map (event c)) := by
  have packets (ps : List Packet) : (ps.map Signal.packet).map (event c) = ps.map (.packet c) := by
    rw [List.map_map]
    rfl
  cases told with
  | going signals early left =>
    rw [signals, packets]
    exact .packets _ early
  | ended signals all closed stopped =>
    rw [signals, List.map_append, packets, all]
    exact .all closed

theorem Carriage.inOrder (run : Carriage marks x) (c : ClientId) :
    InOrder c (sentIn (notesOf c marks)) (.closed ∈ notesOf c marks) (heardOf c marks) := by
  cases run.stand c with
  | absent unused none unattached silent unheard =>
    rw [(List.append_eq_nil_iff.1 unheard).1]
    exact .nothing
  | present capacity w used attached found course told =>
    exact (inOrder_of_told course.told).before ⟨_, told⟩

/-- In every run the broker takes the events of a client in order. -/
theorem Run.heard_in_order {sights : List Sight} (run : Run sights x) (c : ClientId) :
    ∃ sent shut, InOrder c sent shut (eventsOf c (eventsIn sights)) := by
  obtain ⟨marks, carried, heard⟩ := run.carriage
  have inOrder := carried.inOrder c
  rw [heardOf, heard] at inOrder
  exact ⟨_, _, inOrder⟩

theorem send_of_conduit {w : Conduit} (found : Table.find? x.wires c = some (.conduit w))
    (p : Packet) : x.send c p = (w.send p).map fun v => x.setWire c (.conduit v) := by
  simp only [send, found, Wire.send]
  cases w.send p <;> rfl

/-- An attempt to send that comes to nothing leaves everything as it was. -/
theorem unchanged_of_refused {p : Packet} {e : TransportError}
    (deed : Deed x [.noted c (.refused p e)] y) : x.send c p = .error e ∧ y = x := by
  generalize noted : [Mark.noted c (.refused p e)] = new at deed
  cases deed with
  | refuse found refused =>
    cases noted
    exact ⟨refused, rfl⟩
  | @pump _ _ _ signals =>
    cases signals <;> cases noted
  | _ => cases noted

/-! ## Main result -/

/-- The broker hears of every client in order, and a packet is sent exactly when the client has not
closed, the pump is not stopped and there is room; else nothing changes. -/
theorem events_in_order (run : Carriage marks x) (c : ClientId) :
    InOrder c (sentIn (notesOf c marks)) (.closed ∈ notesOf c marks) (heardOf c marks) ∧
    ∀ capacity, .attached c capacity ∈ marks → ∀ p,
      ((∃ y, x.send c p = .ok y) ↔ .closed ∉ notesOf c marks ∧ .aborted ∉ notesOf c marks ∧
        waiting (notesOf c marks) < max capacity 1) ∧
      ∀ e, x.send c p = .error e →
        ((e = .closed ∧ (.closed ∈ notesOf c marks ∨ .aborted ∈ notesOf c marks)) ∨
          (e = .full ∧ .closed ∉ notesOf c marks ∧ .aborted ∉ notesOf c marks ∧
            waiting (notesOf c marks) = max capacity 1)) ∧
        ∀ y, Deed x [.noted c (.refused p e)] y → y = x := by
  refine ⟨run.inOrder c, fun capacity attached p => ?_⟩
  obtain ⟨w, found, course, -⟩ := run.attached attached
  have sends := send_of_conduit found p
  have unchanged {e : TransportError} : ∀ y, Deed x [.noted c (.refused p e)] y → y = x :=
    fun _ deed => (unchanged_of_refused deed).2
  rcases course.send_cases p with
    ⟨isOpen, reads, room, made⟩ | ⟨isOpen, reads, full, made⟩ | ⟨ended, made⟩ <;>
    rw [made] at sends
  · refine ⟨⟨fun _ => ⟨isOpen, reads, room⟩, fun _ => ⟨_, sends⟩⟩, fun e refused => ?_⟩
    cases sends.symm.trans refused
  · refine ⟨⟨fun ⟨y, done⟩ => ?_, fun ⟨_, _, room⟩ => ?_⟩, fun e refused => ?_⟩
    · cases sends.symm.trans done
    · exact absurd full (Nat.ne_of_lt room)
    · cases sends.symm.trans refused
      exact ⟨.inr ⟨rfl, isOpen, reads, full⟩, unchanged⟩
  · refine ⟨⟨fun ⟨y, done⟩ => ?_, fun ⟨isOpen, reads, _⟩ => ?_⟩, fun e refused => ?_⟩
    · cases sends.symm.trans done
    · exact ended.elim (absurd · isOpen) (absurd · reads)
    · cases sends.symm.trans refused
      exact ⟨.inl ⟨rfl, ended⟩, unchanged⟩

/-- A client with room for one packet sends two, of which the broker hears the first before the second
is sent; for a third there is no room. It closes then, the broker hears the second and that it closed,
and the third is refused for that. -/
theorem events_in_order_one :
    ∃ (marks more : List Mark) (x y : Exchange Unit), Carriage marks x ∧
      sentIn (notesOf 0 marks) = [.cancel "a", .cancel "b"] ∧
      heardOf 0 marks = [.accepted 0, .packet 0 (.cancel "a")] ∧
      InOrder 0 [.cancel "a", .cancel "b"] (.closed ∈ notesOf 0 marks) (heardOf 0 marks) ∧
      x.send 0 (.cancel "c") = .error .full ∧ waiting (notesOf 0 marks) = 1 ∧
      Carriage (marks ++ more) y ∧ sentIn (notesOf 0 (marks ++ more)) = [.cancel "a", .cancel "b"] ∧
      .closed ∈ notesOf 0 (marks ++ more) ∧
      heardOf 0 (marks ++ more) =
        [.accepted 0, .packet 0 (.cancel "a"), .packet 0 (.cancel "b"), .closed 0] ∧
      InOrder 0 [.cancel "a", .cancel "b"] (.closed ∈ notesOf 0 (marks ++ more))
        (heardOf 0 (marks ++ more)) ∧
      y.send 0 (.cancel "c") = .error .closed := by
  let registry : Registry Unit := ⟨[], []⟩
  let born : Exchange Unit := ((start registry).attach (.conduit (.start 0))).2
  let marks : List Mark := [.attached 0 0, .noted 0 (.sent (.cancel "a")),
    .noted 0 (.signalled (.packet (.cancel "a"))), .heard (.accepted 0),
    .heard (.packet 0 (.cancel "a")), .noted 0 (.sent (.cancel "b"))]
  let more : List Mark := [.noted 0 .closed, .noted 0 (.signalled (.packet (.cancel "b"))),
    .heard (.packet 0 (.cancel "b")), .noted 0 (.signalled .closed), .heard (.closed 0)]
  obtain ⟨x₁, x₂, w, v, es, es', x, sent, found, moved, pumped, accepted, heard, again, full, ends⟩ :
      ∃ (x₁ x₂ : Exchange Unit) (w v : Wire) (es es' : Queue Event) (x : Exchange Unit),
      born.send 0 (.cancel "a") = .ok x₁ ∧ Table.find? x₁.wires 0 = some w ∧
      w.pump? = some ([.packet (.cancel "a")], v) ∧ x₁.pump? 0 = some x₂ ∧
      x₂.events.pop? = some (.accepted 0, es) ∧
      es.pop? = some (.packet 0 (.cancel "a"), es') ∧
      Exchange.send { x₂ with events := es' } 0 (.cancel "b") = .ok x ∧
      x.send 0 (.cancel "c") = .error .full ∧
      ∃ (w₀ w₁ v₁ w₂ v₂ : Wire) (y₁ y₂ : Exchange Unit) (es₁ es₂ : Queue Event),
        Table.find? x.wires 0 = some w₀ ∧ Table.find? (x.close 0).wires 0 = some w₁ ∧
        w₁.pump? = some ([.packet (.cancel "b")], v₁) ∧ (x.close 0).pump? 0 = some y₁ ∧
        y₁.events.pop? = some (.packet 0 (.cancel "b"), es₁) ∧
        Table.find? y₁.wires 0 = some w₂ ∧ w₂.pump? = some ([.closed], v₂) ∧
        Exchange.pump? { y₁ with events := es₁ } 0 = some y₂ ∧
        y₂.events.pop? = some (.closed 0, es₂) ∧
        Exchange.send { y₂ with events := es₂ } 0 (.cancel "c") = .error .closed :=
    ⟨_, _, _, _, _, _, _, rfl, rfl, rfl, rfl, rfl, rfl, rfl, rfl,
      _, _, _, _, _, _, _, _, _, rfl, rfl, rfl, rfl, rfl, rfl, rfl, rfl, rfl, rfl⟩
  obtain ⟨w₀, w₁, v₁, w₂, v₂, y₁, y₂, es₁, es₂, there, left, last, tells, hears, still, lasts, stops,
    parts, closed⟩ := ends
  have begun := (Carriage.start registry).deed (.attach 0)
  have pumps := (begun.deed (.send sent)).deed (.pump found moved pumped)
  have run : Carriage marks x :=
    ((pumps.deed (.hear accepted)).deed (.hear heard)).deed (.send again)
  have closes := (run.deed (.close there)).deed (.pump left last tells)
  have leaves : Carriage (marks ++ more) { y₂ with events := es₂ } :=
    ((closes.deed (.hear hears)).deed (.pump still lasts stops)).deed (.hear parts)
  obtain ⟨inOrder, sends⟩ := events_in_order run 0
  obtain ⟨⟨ended, -⟩ | ⟨-, -, -, waits⟩, -⟩ :=
    (sends 0 List.mem_cons_self (.cancel "c")).2 .full full
  · cases ended
  · have shut : .closed ∈ notesOf 0 (marks ++ more) := by simp [marks, more, notesOf, Mark.note?]
    exact ⟨marks, more, x, _, run, rfl, rfl, inOrder, full, waits, leaves, rfl, shut, rfl,
      (events_in_order leaves 0).1, closed⟩

end Patchbay.Exchange
