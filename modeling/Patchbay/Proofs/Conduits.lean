import Patchbay.Conduit
import Patchbay.Proofs.Queues

/-!
# Conduits lose nothing

The packets that were delivered into a conduit and have not reached the client stand in three places:
in the client's queue, in the forwarder's hand and in the outbox. Every operation keeps their order,
adds to them at the end only and takes from their front only, as long as neither side has given the
connection up.
-/

namespace Patchbay.Conduit

variable {w v u : Conduit} {p : Packet}

/-- The packets on their way to the client, in the order in which it gets them. -/
def inTransit (w : Conduit) : List Packet := w.ready.toList ++ w.held.toList ++ w.outbox.toList

/-- Neither side has given the connection up. -/
def keeps (w : Conduit) : Bool := w.linked && w.reading

/-- The forwarder runs as long as the connection is kept, and there is room for a packet. -/
structure Works (w : Conduit) : Prop where
  forwarding : w.keeps = true → w.forwarding = true
  room : 1 ≤ w.capacity

/-- From one state of a conduit to another, the packets `into` go in and the packets `out` come out.
-/
structure Passes (w : Conduit) (into out : List Packet) (v : Conduit) : Prop where
  kept : v.keeps = true → w.keeps = true
  transit : v.keeps = true → w.inTransit ++ into = out ++ v.inTransit
  works : w.Works → v.Works

namespace Passes

variable {into more out rest : List Packet}

/-- Where the two ends and the packets in between are untouched. -/
theorem of_same (kept : v.keeps = w.keeps) (transit : v.inTransit = w.inTransit)
    (forwarding : v.forwarding = w.forwarding) (capacity : v.capacity = w.capacity) :
    w.Passes [] [] v where
  kept := by simp [kept]
  transit := by simp [transit]
  works works := by
    constructor
    · rw [kept, forwarding]
      exact works.forwarding
    · rw [capacity]
      exact works.room

theorem refl (w : Conduit) : w.Passes [] [] w := of_same rfl rfl rfl rfl

/-- Where the connection is given up nothing is promised any more. -/
theorem of_lost (lost : v.keeps = false) (capacity : v.capacity = w.capacity) :
    w.Passes [] [] v where
  kept := by simp [lost]
  transit := by simp [lost]
  works works := ⟨by simp [lost], capacity ▸ works.room⟩

theorem trans (first : w.Passes into out v) (second : v.Passes more rest u) :
    w.Passes (into ++ more) (out ++ rest) u where
  kept kept := first.kept (second.kept kept)
  transit kept := by
    have before := first.transit (second.kept kept)
    have after := second.transit kept
    calc w.inTransit ++ (into ++ more)
        = (w.inTransit ++ into) ++ more := (List.append_assoc ..).symm
      _ = out ++ (v.inTransit ++ more) := by rw [before, List.append_assoc]
      _ = (out ++ rest) ++ u.inTransit := by rw [after, List.append_assoc]
  works works := second.works (first.works works)

end Passes

/-! ## Operations -/

theorem inTransit_start (capacity : Nat) : (start capacity).inTransit = [] := rfl

theorem works_start (capacity : Nat) : (start capacity).Works :=
  ⟨fun _ => rfl, Nat.le_max_right capacity 1⟩

theorem passes_send (sent : w.send p = .ok v) : w.Passes [] [] v := by
  unfold send at sent
  split at sent
  · cases sent
  · split at sent
    · cases sent
    · cases sent
      exact .of_same rfl rfl rfl rfl

theorem passes_pump {signal : Signal} (pumped : w.pump? = some (signal, v)) :
    w.Passes [] [] v := by
  unfold pump? at pumped
  split at pumped
  · cases pumped
  · split at pumped
    · cases pumped
      exact .of_same rfl rfl rfl rfl
    · split at pumped
      · cases pumped
      · cases pumped
        exact .of_same rfl rfl rfl rfl

theorem passes_close (w : Conduit) : w.Passes [] [] w.close := .of_lost (by simp [keeps, close]) rfl

@[simp] theorem keeps_drop (w : Conduit) : w.drop.keeps = false := by
  simp [keeps, drop, unlink, abort]

theorem passes_drop (w : Conduit) : w.Passes [] [] w.drop := .of_lost w.keeps_drop rfl

theorem passes_deliver (w : Conduit) (p : Packet) : w.Passes [p] [] (w.deliver p) where
  kept kept := kept
  transit _ := by simp [inTransit, deliver]
  works works := ⟨works.forwarding, works.room⟩

theorem passes_forward (forwarded : w.forward? = some v) : w.Passes [] [] v := by
  unfold forward? at forwarded
  split at forwarded
  · cases forwarded
  · split at forwarded
    · next p held =>
      split at forwarded
      · next deaf =>
        cases forwarded
        exact .of_lost (by simpa [keeps] using fun _ => deaf) rfl
      · split at forwarded
        · cases forwarded
          exact .of_same rfl (by simp [inTransit, held]) rfl rfl
        · cases forwarded
    · next none =>
      split at forwarded
      · next p rest popped =>
        cases forwarded
        refine .of_same rfl ?_ rfl rfl
        simp [inTransit, none, Queue.toList_of_pop? popped]
      · split at forwarded
        · cases forwarded
        · next dropped =>
          cases forwarded
          exact .of_lost (by simpa [keeps] using fun linked => absurd linked dropped) rfl

theorem passes_receive (received : w.receive = .packet p v) : w.Passes [] [p] v := by
  unfold receive at received
  split at received
  · next q rest popped =>
    cases received
    refine ⟨id, fun _ => ?_, fun works => ⟨works.forwarding, works.room⟩⟩
    simp [inTransit, Queue.toList_of_pop? popped]
  · split at received <;> cases received

/-- Once nothing more is forwarded and nothing more can be read, everything has arrived. -/
theorem inTransit_of_rest (works : w.Works) (kept : w.keeps = true) (rests : w.forward? = none)
    (read : ∀ p v, w.receive ≠ .packet p v) : w.inTransit = [] := by
  have forwarding := works.forwarding kept
  obtain ⟨linked, reading⟩ : w.linked = true ∧ w.reading = true := by
    simpa [keeps] using kept
  have ready : w.ready.pop? = none := by
    cases popped : w.ready.pop? with
    | none => rfl
    | some entry =>
      obtain ⟨p, rest⟩ := entry
      exact absurd (by simp [receive, popped]) (read p { w with ready := rest })
  have empty := Queue.pop?_eq_none_iff.1 ready
  have size : w.ready.length = 0 := by rw [← Queue.length_toList, empty]; rfl
  have room := works.room
  unfold forward? at rests
  simp only [forwarding, reading, linked, Bool.not_true, Bool.false_eq_true, if_false] at rests
  split at rests
  · rw [if_pos (by omega)] at rests
    cases rests
  · next none =>
    split at rests
    · cases rests
    · next popped =>
      simp [inTransit, empty, none, Queue.pop?_eq_none_iff.1 popped]

end Patchbay.Conduit
