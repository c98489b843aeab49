import Patchbay.Proofs.Broker.FanOut

/-!
# One client in two brokers

Where a client stands is its own doing: whether it is connected and where it is subscribed depends on
its own packets only, as long as the broker does not hang up on it. So two brokers that agree on a
client agree on it whatever each of them takes from others, and after they took the same from it.
-/

namespace Patchbay.Broker

variable {s c d : ClientId} {b b' b'' : Broker} {links : Links} {machineOpen : Bool} {p q : Packet}
  {input : Input} {o : Outcome} {ds : List ClientId}

/-- Two brokers agree on a client. -/
structure Alike (s : ClientId) (b b' : Broker) : Prop where
  found : Table.find? b.clients s = Table.find? b'.clients s
  subscribed : ∀ t, s ∈ b.subscriptions.subscribers t ↔ s ∈ b'.subscriptions.subscribers t

namespace Alike

theorem of_same (clients : b'.clients = b.clients) (subscriptions : b'.subscriptions = b.subscriptions) :
    Alike s b b' := ⟨by rw [clients], fun t => by rw [subscriptions]⟩

theorem refl (s : ClientId) (b : Broker) : Alike s b b := of_same rfl rfl

theorem symm (h : Alike s b b') : Alike s b' b := ⟨h.found.symm, fun t => (h.subscribed t).symm⟩

theorem trans (first : Alike s b b') (second : Alike s b' b'') : Alike s b b'' :=
  ⟨first.found.trans second.found, fun t => (first.subscribed t).trans (second.subscribed t)⟩

theorem recipients (h : Alike s b b') (c : ClientId) (target : Option Target) :
    s ∈ b.subscriptions.recipients c target ↔ s ∈ b'.subscriptions.recipients c target := by
  cases target with
  | none => exact Iff.rfl
  | some t => simp [Subscriptions.recipients, h.subscribed t]

end Alike

/-! ## What is sent -/

namespace Logged

theorem keyed (h : b.Logged) : b.subscriptions.Keyed := by
  obtain ⟨log, same⟩ := h
  exact same ▸ Subscriptions.keyed_replay log

theorem alike_removeClient (h : b.Logged) (kept : .hangUp s ∉ (b.removeClient d).2) :
    Alike s b (b.removeClient d).1 := by
  unfold Broker.removeClient at kept ⊢
  split
  · next known =>
    have apart : s ≠ d := by
      rintro rfl
      exact kept (by simp [known])
    refine ⟨by rw [Table.find?_erase, if_neg (Ne.symm apart)], fun t => ?_⟩
    rw [h.keyed.subscribers_removeClient]
    simp [Subscriptions.Action.onto, apart]
  · exact .refl s b

theorem alike_send (h : b.Logged) (kept : .hangUp s ∉ (b.send links d p).2) :
    Alike s b (b.send links d p).1 := by
  have withheld : Alike s b (b.withhold d p) :=
    .of_same (b.withhold_clients d p) (b.withhold_subscriptions d p)
  generalize outcome : b.send links d p = o at kept ⊢
  have sent := outcome ▸ send_sent links b d p
  cases sent with
  | last => exact .of_same rfl rfl
  | more | unknown | whole => exact .refl s b
  | replaced => exact withheld
  | lost => exact withheld.trans ((h.withhold d p).alike_removeClient kept)
  | gone => exact h.alike_removeClient kept

theorem alike_sendAll (h : b.Logged) (kept : .hangUp s ∉ (Broker.sendAll links p ds b).2) :
    Alike s b (Broker.sendAll links p ds b).1 := by
  induction ds generalizing b with
  | nil => exact .refl s b
  | cons d rest ih =>
    have first := h.alike_send (kept_first kept)
    exact first.trans (ih (h.send links d p) (kept_second kept))

end Logged

/-! ## What others do -/

/-- Whose event is taken; a reply is nobody's. -/
def Input.client? : Input → Option ClientId
  | .event (.accepted c) | .event (.packet c _) | .event (.closed c) => some c
  | .reply _ => none

theorem put_alike (apart : s ≠ c) (connected : Bool) :
    Alike s b { b with clients := Table.put b.clients c connected } :=
  ⟨by rw [Table.find?_put, if_neg (Ne.symm apart)], fun _ => Iff.rfl⟩

theorem subscribe_alike (apart : s ≠ c) (t : Target) :
    Alike s b { b with subscriptions := (b.subscriptions.subscribe t c).1 } := by
  refine ⟨rfl, fun u => ?_⟩
  rw [Subscriptions.subscribers_subscribe]
  simp only [Subscriptions.Action.onto]
  split <;> simp [apart]

theorem unsubscribe_alike (apart : s ≠ c) (t : Target) :
    Alike s b { b with subscriptions := (b.subscriptions.unsubscribe t c).1 } := by
  refine ⟨rfl, fun u => ?_⟩
  rw [Subscriptions.subscribers_unsubscribe]
  simp only [Subscriptions.Action.onto]
  split <;> simp [apart]

/-- Nothing that others do changes where a client stands. -/
theorem Logged.alike_took (h : b.Logged) (took : Took links b machineOpen input o)
    (foreign : input.client? ≠ some s) (kept : .hangUp s ∉ o.2) : Alike s b o.1 := by
  have apart {c : ClientId} (client : input.client? = some c) : s ≠ c := by
    rintro rfl
    exact foreign client
  cases took with
  | accepts c => exact put_alike (apart rfl) false
  | closes c => exact h.alike_removeClient kept
  | ignores | asks => exact .refl s b
  | @refuses _ _ c p v =>
    have first := h.alike_send (kept_first kept)
    exact first.trans ((h.send links c _).alike_removeClient (kept_second kept))
  | @greets _ c p =>
    have marked : Logged { b with clients := Table.put b.clients c true } := h
    exact (put_alike (apart rfl) true).trans (marked.alike_send kept)
  | @leaves _ c p =>
    have first := h.alike_send (kept_first kept)
    exact first.trans ((h.send links c _).alike_removeClient (kept_second kept))
  | @subscribes _ c p t =>
    have noted : Logged { b with subscriptions := (b.subscriptions.subscribe t c).1 } :=
      h.act (.subscribe t c) rfl
    exact (subscribe_alike (apart rfl) t).trans (noted.alike_send kept)
  | @unsubscribes _ c p q t =>
    have noted : Logged { b with subscriptions := (b.subscriptions.unsubscribe t c).1 } :=
      h.act (.unsubscribe t c) rfl
    exact (unsubscribe_alike (apart rfl) t).trans (noted.alike_send kept)
  | fails | replies => exact h.alike_sendAll kept

/-! ## What a client does itself -/

namespace Alike

variable (h : Alike s b b') (logged : b.Logged) (logged' : b'.Logged)

include h logged logged'

theorem sent (kept : .hangUp s ∉ (b.send links c p).2) (kept' : .hangUp s ∉ (b'.send links d q).2) :
    Alike s (b.send links c p).1 (b'.send links d q).1 :=
  (logged.alike_send kept).symm.trans (h.trans (logged'.alike_send kept'))

theorem removed (kept : .hangUp s ∉ (b.removeClient s).2)
    (kept' : .hangUp s ∉ (b'.removeClient s).2) :
    Alike s (b.removeClient s).1 (b'.removeClient s).1 :=
  (logged.alike_removeClient kept).symm.trans (h.trans (logged'.alike_removeClient kept'))

/-- Acting on a packet of a client makes the same of where it stands. -/
theorem act {target : Option Target} (kept : .hangUp s ∉ (b.act links machineOpen s p target).2)
    (kept' : .hangUp s ∉ (b'.act links machineOpen s p target).2) :
    Alike s (b.act links machineOpen s p target).1 (b'.act links machineOpen s p target).1 := by
  cases type : p.type with
  | connect =>
    simp only [Broker.act, type] at kept kept' ⊢
    have put : Alike s { b with clients := Table.put b.clients s true }
        { b' with clients := Table.put b'.clients s true } :=
      ⟨by rw [Table.find?_put, Table.find?_put, if_pos rfl, if_pos rfl], h.subscribed⟩
    exact put.sent logged logged' kept kept'
  | disconnect =>
    simp only [Broker.act, type] at kept kept' ⊢
    have first := h.sent logged logged' (kept_first kept) (kept_first kept')
    exact first.removed (logged.send links s _) (logged'.send links s _) (kept_second kept)
      (kept_second kept')
  | subscribe =>
    cases target with
    | none =>
      simp only [Broker.act, type]
      exact h
    | some t =>
      simp only [Broker.act, type] at kept kept' ⊢
      have noted : Alike s { b with subscriptions := (b.subscriptions.subscribe t s).1 }
          { b' with subscriptions := (b'.subscriptions.subscribe t s).1 } := by
        refine ⟨h.found, fun u => ?_⟩
        simp only [Subscriptions.subscribers_subscribe, Subscriptions.Action.onto]
        by_cases here : t = u
        · by_cases there : s ∈ b.subscriptions.subscribers u <;>
            simp [here, there, ← h.subscribed u]
        · simp [here, h.subscribed u]
      exact noted.sent (logged.act (.subscribe t s) rfl) (logged'.act (.subscribe t s) rfl) kept
        kept'
  | unsubscribe =>
    cases target with
    | none =>
      simp only [Broker.act, type]
      exact h
    | some t =>
      simp only [Broker.act, type, unsubscribe] at kept kept' ⊢
      have noted : Alike s { b with subscriptions := (b.subscriptions.unsubscribe t s).1 }
          { b' with subscriptions := (b'.subscriptions.unsubscribe t s).1 } := by
        refine ⟨h.found, fun u => ?_⟩
        simp only [Subscriptions.subscribers_unsubscribe, Subscriptions.Action.onto]
        split <;> simp [h.subscribed u]
      have removed : (b.subscriptions.unsubscribe t s).2 = (b'.subscriptions.unsubscribe t s).2 := by
        simp only [Subscriptions.unsubscribe, h.subscribed t]
        split <;> rfl
      rw [← removed] at kept' ⊢
      have log : Logged { b with subscriptions := (b.subscriptions.unsubscribe t s).1 } :=
        logged.act (.unsubscribe t s) rfl
      have log' : Logged { b' with subscriptions := (b'.subscriptions.unsubscribe t s).1 } :=
        logged'.act (.unsubscribe t s) rfl
      generalize (b.subscriptions.unsubscribe t s).2 = found at kept kept' ⊢
      cases found with
      | true => exact noted.sent log log' kept kept'
      | false => exact noted.sent log log' kept kept'
  | execute =>
    cases target with
    | none =>
      simp only [Broker.act, type]
      exact h
    | some t =>
      simp only [Broker.act, type, execute] at kept kept' ⊢
      cases machineOpen with
      | true => exact h
      | false =>
        exact (logged.alike_sendAll kept).symm.trans (h.trans (logged'.alike_sendAll kept'))
  | cancel =>
    simp only [Broker.act, type, cancel] at kept kept' ⊢
    cases machineOpen with
    | true => exact h
    | false => exact h.sent logged logged' kept kept'
  | respond | respondExecute =>
    simp only [Broker.act, type]
    exact h

theorem take_own (own : input.client? = some s)
    (kept : .hangUp s ∉ (b.take links machineOpen input).2)
    (kept' : .hangUp s ∉ (b'.take links machineOpen input).2) :
    Alike s (b.take links machineOpen input).1 (b'.take links machineOpen input).1 := by
  cases input with
  | reply r => cases own
  | event e =>
    cases e with
    | accepted c =>
      obtain rfl : c = s := Option.some.inj own
      refine ⟨?_, h.subscribed⟩
      simp only [take, handle, Table.find?_put, if_true]
    | closed c =>
      obtain rfl : c = s := Option.some.inj own
      exact h.removed logged logged' kept kept'
    | packet c p =>
      obtain rfl : c = s := Option.some.inj own
      simp only [take, handle, handlePacket, ← h.found] at kept kept' ⊢
      cases found : Table.find? b.clients c with
      | none => exact h
      | some connected =>
        simp only [found] at kept kept' ⊢
        cases checked : check connected p with
        | ok target =>
          simp only [checked] at kept kept' ⊢
          exact h.act logged logged' kept kept'
        | error v =>
          simp only [checked] at kept
          have known : Table.has b.clients c := Option.isSome_iff_exists.2 ⟨connected, found⟩
          exact absurd (hangUp_of_refused known v) kept

/-- Two brokers that agree on a client agree on it after they took the same. -/
theorem take (kept : .hangUp s ∉ (b.take links machineOpen input).2)
    (kept' : .hangUp s ∉ (b'.take links machineOpen input).2) :
    Alike s (b.take links machineOpen input).1 (b'.take links machineOpen input).1 := by
  by_cases own : input.client? = some s
  · exact h.take_own logged logged' own kept kept'
  · have first := logged.alike_took (take_took links machineOpen b input) own kept
    have second := logged'.alike_took (take_took links machineOpen b' input) own kept'
    exact first.symm.trans (h.trans second)

end Alike

end Patchbay.Broker
