import Patchbay.Proofs.Exchange.Connections

/-!
# Accounts of an exchange

Between broker and machine nothing is lost and nothing overtakes: what the broker has asked is what
the machine has taken and what still waits, and what the machine has said is what the broker has
passed on and what still waits. The machine, with all that it has said put together, has a history.
-/

namespace Patchbay.Exchange

open Machine (History)

variable {σ : Type} {x y : Exchange σ} {sights new : List Sight}

structure Accounts (sights : List Sight) (x : Exchange σ) : Prop where
  asked : asksOf sights = taken sights ++ x.requests.toList
  said : emissions sights = passedOn sights ++ x.replies.toList
  silent : x.machine.replies = []
  history : ∃ lines, History (taken sights) (x.machine.said (emissions sights) lines)

theorem accounts_start (registry : Registry σ) : Accounts [] (start registry) where
  asked := rfl
  said := rfl
  silent := rfl
  history := ⟨[], .start registry⟩

/-- A turn in which nothing is seen that concerns the machine. -/
theorem Accounts.idle (h : Accounts sights x) (asked : asksOf new = []) (took : taken new = [])
    (said : emissions new = []) (passed : passedOn new = []) (requests : y.requests = x.requests)
    (replies : y.replies = x.replies) (machine : y.machine = x.machine) :
    Accounts (sights ++ new) y where
  asked := by simp [asked, took, requests, h.asked]
  said := by simp [said, passed, replies, h.said]
  silent := machine ▸ h.silent
  history := by simpa [took, said, machine] using h.history

/-- What the broker does adds to the requests. -/
theorem Accounts.apply (h : Accounts sights x) {z : Exchange σ} {o : Broker.Outcome}
    (rs : List Reply) (asked : asksOf new = Patchbay.requests o.2) (took : taken new = [])
    (said : emissions new = []) (passed : passedOn new = rs) (requests : z.requests = x.requests)
    (replies : x.replies.toList = rs ++ z.replies.toList) (machine : z.machine = x.machine) :
    Accounts (sights ++ new) (z.apply o) := by
  have touches := apply_touches z o
  refine ⟨?_, ?_, ?_, ?_⟩
  · rw [asksOf_append, asked, touches.requests, taken_append, took, List.append_nil, h.asked,
      List.append_assoc]
    exact congrArg (taken sights ++ ·) (by simp [requests])
  · simp [said, passed, touches.replies, h.said, replies]
  · rw [touches.machine]
    exact machine ▸ h.silent
  · rw [touches.machine]
    simpa [took, said, machine] using h.history

/-- A machine that moved adds to what was said, and what it says goes to the broker. -/
theorem Accounts.collect (h : Accounts sights x) {z : Exchange σ} {l : Machine.Move}
    {m : Machine σ} (moved : x.machine.move? l = some m) (silent : asksOf new = [])
    (took : taken new = l.asked) (said : emissions new = m.replies) (passed : passedOn new = [])
    (requests : x.requests.toList = l.asked ++ z.requests.toList) (replies : z.replies = x.replies)
    (broker : z.broker.isSome) : Accounts (sights ++ new) (z.collect m) where
  asked := by simp [silent, took, h.asked, requests, Exchange.collect]
  said := by simp [said, passed, h.said, replies, Exchange.collect, broker]
  silent := rfl
  history := by
    obtain ⟨lines, history⟩ := h.history
    refine ⟨lines ++ m.log, ?_⟩
    have step := x.machine.move_said (emissions sights) lines l
    rw [moved, Option.map_some] at step
    have next := history.move l step
    have same : (z.collect m).machine.said (emissions (sights ++ new)) (lines ++ m.log) =
        m.said (emissions sights) lines := by
      simp [Exchange.collect, Machine.said, said]
    rwa [same, taken_append, took]

theorem Turned.accounts (wired : Wired sights x) (h : Accounts sights x) (turned : Turned x new y) :
    Accounts (sights ++ new) y := by
  obtain ⟨b, there, -⟩ := wired.broker
  have running : x.broker.isSome := by simp [there]
  cases turned with
  | attach capacity => exact h.idle rfl rfl rfl rfl rfl rfl rfl
  | @link c w v out wires signals found others passes =>
    refine h.idle ?_ ?_ ?_ ?_ rfl rfl rfl
    · simp [asksOf, Patchbay.requests]
    · exact taken_received c out
    · exact emissions_received c out
    · exact passedOn_received c out
  | idle now registry =>
    obtain ⟨lines, history⟩ := h.history
    refine ⟨?_, ?_, h.silent, lines, ?_⟩
    · simpa using h.asked
    · simpa using h.said
    · rw [List.append_nil]
      exact history.exchange registry
  | @hear b e rest broker popped =>
    refine h.apply (z := { x with events := rest }) [] ?_ rfl rfl rfl rfl rfl rfl
    simp [asksOf, Sight.done]
  | @answer b r rest broker popped =>
    refine h.apply (z := { x with replies := rest }) [r] ?_ rfl rfl rfl rfl ?_ rfl
    · simp [asksOf, Sight.done]
    · exact Queue.toList_of_pop? popped
  | @take r rest m popped moved =>
    refine h.collect (z := { x with requests := rest }) moved ?_ ?_ ?_ ?_ ?_ rfl running
    · simp [asksOf, Sight.done, Patchbay.requests]
    · exact congrArg (r :: ·) (taken_emitted m.replies)
    · exact emissions_emitted m.replies
    · exact passedOn_emitted m.replies
    · exact Queue.toList_of_pop? popped
  | @work l m own moved =>
    have unasked : l.asked = [] := by
      cases l with
      | request r => cases own
      | _ => rfl
    refine h.collect (z := x) moved ?_ ?_ ?_ ?_ ?_ rfl running
    · simp [asksOf, Patchbay.requests]
    · rw [unasked, taken_emitted]
    · exact emissions_emitted m.replies
    · exact passedOn_emitted m.replies
    · rw [unasked, List.nil_append]

theorem Run.accounts (run : Run sights x) : Accounts sights x := by
  induction run with
  | start registry => exact accounts_start registry
  | turn t before step ih => exact (turned_of_turn before.wired step).accounts before.wired ih

/-- What the machine of an exchange has taken and said is what a machine by itself takes and says.
-/
theorem Run.history (run : Run sights x) :
    ∃ m : Machine σ, History (taken sights) m ∧ m.replies = emissions sights := by
  have accounts := run.accounts
  obtain ⟨lines, history⟩ := accounts.history
  exact ⟨_, history, by simp [Machine.said, accounts.silent]⟩

end Patchbay.Exchange
