import Patchbay.Proofs.Broker.Runs

/-!
# The broker's tables agree

Clients are removed in many places, in the middle of an acknowledgement or of a fan-out too. In
whatever state the broker comes, nobody is subscribed who is not connected, nothing is withheld from a
client that is not there, and the subscribers of each target are some, each of them once.
-/

namespace Patchbay.Broker

variable {c d : ClientId} {b : Broker} {links : Links} {machineOpen : Bool} {p : Packet}
  {input : Input} {o : Outcome}

/-- The three tables of a broker agree. -/
structure Coherent (b : Broker) : Prop where
  enrolled : ∀ c, b.subscriptions.Holds c → Table.find? b.clients c = some true
  owned : ∀ key ∈ b.undeliverable, Table.has b.clients key.1
  populated : b.subscriptions.Populated
  once : b.subscriptions.Distinct

theorem coherent_init : Coherent .init where
  enrolled c held := by
    obtain ⟨entry, member, -⟩ := held
    cases member
  owned := by simp [init]
  populated := Subscriptions.populated_empty
  once := Subscriptions.distinct_empty

/-! ## Removing a client -/

theorem Coherent.removeClient (h : b.Coherent) (d : ClientId) :
    (b.removeClient d).1.Coherent := by
  unfold Broker.removeClient
  split
  · refine ⟨fun c held => ?_, fun key member => ?_, .removeClient b.subscriptions d,
      h.once.removeClient d⟩
    · have apart : d ≠ c := by
        rintro rfl
        exact b.subscriptions.not_holds_removeClient d held
      rw [Table.find?_erase, if_neg apart]
      exact h.enrolled c (Subscriptions.holds_of_removeClient held)
    · obtain ⟨before, other⟩ := List.mem_filter.1 member
      have apart : d ≠ key.1 := Ne.symm (of_decide_eq_true other)
      rw [Table.has, Table.find?_erase, if_neg apart]
      exact h.owned key before
  · exact h

/-! ## Sending -/

/-- To a client that is not known nothing is sent; at most less is withheld from it. -/
theorem send_stranger (links : Links) (p : Packet) (stranger : Table.has b.clients d = false) :
    ∃ kept, kept ⊆ b.undeliverable ∧
      b.send links d p = ({ b with undeliverable := kept }, []) := by
  unfold send
  dsimp only
  split
  · split
    · exact ⟨_, List.filter_subset_self _, rfl⟩
    · exact ⟨_, List.Subset.refl _, rfl⟩
  · rw [if_pos (by simp [stranger])]
    exact ⟨_, List.Subset.refl _, rfl⟩

theorem Coherent.withhold (h : b.Coherent) (known : Table.has b.clients d) (p : Packet) :
    (b.withhold d p).Coherent := by
  unfold Broker.withhold
  split
  · refine { h with owned := fun key member => ?_ }
    rcases List.mem_cons.1 member with rfl | before
    · exact known
    · exact h.owned key before
  · exact h

theorem Coherent.send (h : b.Coherent) (links : Links) (d : ClientId) (p : Packet) :
    (b.send links d p).1.Coherent := by
  cases known : Table.has b.clients d with
  | false =>
    obtain ⟨kept, fewer, sent⟩ := send_stranger links p known
    rw [sent]
    exact { h with owned := fun key member => h.owned key (fewer member) }
  | true =>
    generalize outcome : b.send links d p = o
    have sent := outcome ▸ send_sent links b d p
    cases sent with
    | last =>
      exact { h with owned := fun key member => h.owned key (List.mem_of_mem_filter member) }
    | more | unknown | whole => exact h
    | replaced => exact h.withhold known p
    | lost => exact (h.withhold known p).removeClient d
    | gone => exact h.removeClient d

theorem Coherent.sendAll (h : b.Coherent) (links : Links) (p : Packet) (ds : List ClientId) :
    (Broker.sendAll links p ds b).1.Coherent := by
  induction ds generalizing b with
  | nil => exact h
  | cons d rest ih => exact ih (h.send links d p)

/-! ## Noting something down -/

/-- Marking a client keeps the tables in agreement, if a client that is subscribed is marked as
connected. -/
theorem Coherent.put (h : b.Coherent) {connected : Bool}
    (free : Table.find? b.clients d = some true → connected = true) :
    Coherent { b with clients := Table.put b.clients d connected } := by
  refine { h with enrolled := fun c held => ?_, owned := fun key member => ?_ }
  · rw [Table.find?_put]
    split
    · next same =>
      subst same
      rw [free (h.enrolled d held)]
    · exact h.enrolled c held
  · rw [Table.has, Table.find?_put]
    split
    · rfl
    · exact h.owned key member

theorem Coherent.subscribe (h : b.Coherent) (t : Target)
    (connected : Table.find? b.clients d = some true) :
    Coherent { b with subscriptions := (b.subscriptions.subscribe t d).1 } where
  enrolled c held := by
    rcases Subscriptions.holds_of_subscribe held with before | rfl
    · exact h.enrolled c before
    · exact connected
  owned := h.owned
  populated := h.populated.subscribe t d
  once := h.once.subscribe t d

theorem Coherent.unsubscribe (h : b.Coherent) (t : Target) (d : ClientId) :
    Coherent { b with subscriptions := (b.subscriptions.unsubscribe t d).1 } where
  enrolled c held := h.enrolled c (Subscriptions.holds_of_unsubscribe held)
  owned := h.owned
  populated := h.populated.unsubscribe t d
  once := h.once.unsubscribe t d

/-! ## Every run -/

/-- Whatever the broker takes keeps its tables in agreement; a client that is accepted must be new. -/
theorem Coherent.took (h : b.Coherent) (took : Took links b machineOpen input o)
    (fresh : ∀ c, input = .event (.accepted c) → Table.find? b.clients c = none) :
    o.1.Coherent := by
  cases took with
  | accepts c =>
    apply h.put
    intro known
    rw [fresh c rfl] at known
    cases known
  | closes c => exact h.removeClient c
  | ignores | asks => exact h
  | @refuses _ _ c p v => exact (h.send links c _).removeClient c
  | @greets _ c p known connect => exact (h.put fun _ => rfl).send links c _
  | @leaves _ c p => exact (h.send links c _).removeClient c
  | @subscribes _ c p t found => exact (h.subscribe t found).send links c _
  | @unsubscribes _ c p q t => exact (h.unsubscribe t c).send links c q
  | fails | replies => exact h.sendAll links _ _

theorem Run.coherent {rounds : List Round} (run : Run rounds b) : b.Coherent := by
  induction run with
  | start => exact coherent_init
  | @take rounds b links machineOpen input before fresh ih =>
    refine ih.took (take_took links machineOpen b input) fun c accepts => ?_
    cases found : Table.find? b.clients c with
    | none => rfl
    | some connected =>
      have known : Table.has b.clients c := Option.isSome_iff_exists.2 ⟨connected, found⟩
      obtain ⟨round, member, same⟩ := (before.known_iff.1 known).1
      exact absurd same (fresh c accepts round member)

/-- In every state of every run, whatever the links do, the broker's tables agree: who is subscribed
is connected, who owns a withheld transaction is known, and every target in the table has
subscribers, each once. -/
theorem coherent_of_run {rounds : List Round} (run : Run rounds b) : b.Coherent := run.coherent

/-- Links of which one is closed and the others take nothing but last replies. -/
def narrowLinks : Links := fun c p =>
  if c = 1 then .error .closed
  else if p.isTerminal then .ok ()
  else .error (.violation (.tooLarge "frame" 20000000 Frame.limit))

/-- Two clients subscribe to a function; an output of it is too large for the one, and the other is
gone by then. -/
def fanOut : List (Links × Bool × Input) :=
  [(fun _ _ => .ok (), true, .event (.accepted 0)),
    (fun _ _ => .ok (), true, .event (.accepted 1)),
    (fun _ _ => .ok (), true, .event (.packet 0 (.connect "a"))),
    (fun _ _ => .ok (), true, .event (.packet 1 (.connect "b"))),
    (fun _ _ => .ok (), true, .event (.packet 0 (.subscribe "c" (.function "f")))),
    (fun _ _ => .ok (), true, .event (.packet 1 (.subscribe "d" (.function "f")))),
    (narrowLinks, true, .reply ⟨0, 0, some (.function "f"), .output "t" 0 false .null⟩)]

theorem coherent_of_run_fanOut :
    ∃ rounds b, Run rounds b ∧ b.clients = [(0, true)] ∧
      b.subscriptions.table = [(.function "f", [0])] ∧ b.undeliverable = [(0, "t")] ∧
      b.Coherent := by
  have run := Run.start.takeAll fanOut (by decide)
  exact ⟨_, _, run, rfl, rfl, rfl, coherent_of_run run⟩

end Patchbay.Broker
