import Mathlib.Data.Finset.Card
import Mathlib.Data.List.Induction
import Patchbay.Proofs.Subscriptions

/-!
# The table as a log of interests

What is done to the table is a log, and the log alone says who is interested in a target: whoever
subscribed to it and has neither unsubscribed from it nor been removed since. A client comes in where
it subscribes without being interested; to subscribe again does not move it. The table says the same
after every log: its subscribers of a target are the interested clients in the order in which they
came in.
-/

namespace Patchbay.Subscriptions

/-- What is done to the table. -/
inductive Action where
  | subscribe (t : Target) (c : ClientId)
  | unsubscribe (t : Target) (c : ClientId)
  | remove (c : ClientId)

namespace Action

/-- Whose action it is. -/
def client : Action → ClientId
  | subscribe _ c | unsubscribe _ c | remove c => c

/-- To remove a client concerns every target. -/
def Concerns (t : Target) : Action → Prop
  | subscribe u _ | unsubscribe u _ => u = t
  | remove _ => True

/-- After it the client is not interested in the target. -/
def Ends (t : Target) (c : ClientId) : Action → Prop
  | subscribe _ _ => False
  | unsubscribe u d => u = t ∧ d = c
  | remove d => d = c

/-- What it makes of the subscribers of a target. -/
def onto (t : Target) (clients : List ClientId) : Action → List ClientId
  | subscribe u c => if u = t ∧ c ∉ clients then clients ++ [c] else clients
  | unsubscribe u c => if u = t then clients.filter (· ≠ c) else clients
  | remove c => clients.filter (· ≠ c)

end Action

/-- The table after an action. -/
def act (s : Subscriptions) : Action → Subscriptions
  | .subscribe t c => (s.subscribe t c).1
  | .unsubscribe t c => (s.unsubscribe t c).1
  | .remove c => (s.removeClient c).1

/-- The table after a log, at first empty. -/
def replay (log : List Action) : Subscriptions := log.foldl act .empty

/-- A client subscribed to a target, and nothing has ended its interest since. -/
def Interested (log : List Action) (t : Target) (c : ClientId) : Prop :=
  ∃ before after, log = before ++ .subscribe t c :: after ∧ ∀ a ∈ after, ¬ a.Ends t c

/-- The place in a log where a client came in: it subscribed there when it was not interested, and
has been interested since. -/
structure Joined (log : List Action) (t : Target) (c : ClientId) (i : Nat) : Prop where
  subscribes : log[i]? = some (.subscribe t c)
  absent : ¬ Interested (log.take i) t c
  stays : ∀ a ∈ log.drop (i + 1), ¬ a.Ends t c

/-- One client came in before another. -/
def Before (log : List Action) (t : Target) (c d : ClientId) : Prop :=
  ∃ i j, Joined log t c i ∧ Joined log t d j ∧ i < j

variable {s : Subscriptions} {t u : Target} {c d : ClientId} {log : List Action} {a : Action}

/-! ## One action and one target -/

/-- Every target stands in the table once. -/
def Keyed (s : Subscriptions) : Prop := (Table.keys s.table).Nodup

theorem Keyed.mem_subscribers (h : s.Keyed) :
    c ∈ s.subscribers t ↔ ∃ entry ∈ s.table, entry.1 = t ∧ c ∈ entry.2 := by
  constructor
  · intro member
    cases found : Table.find? s.table t with
    | none => simp [subscribers, found] at member
    | some clients =>
      rw [subscribers, found] at member
      exact ⟨_, Table.mem_of_find? found, rfl, member⟩
  · rintro ⟨⟨u, clients⟩, stands, rfl, member⟩
    rw [subscribers, Table.find?_of_mem h stands]
    exact member

theorem subscribers_put (clients : List ClientId) :
    subscribers ⟨Table.put s.table t clients⟩ u = if t = u then clients else s.subscribers u := by
  simp only [subscribers, Table.find?_put]
  split <;> rfl

theorem subscribers_subscribe (s : Subscriptions) (t u : Target) (c : ClientId) :
    (s.subscribe t c).1.subscribers u = (Action.subscribe t c).onto u (s.subscribers u) := by
  simp only [subscribe, Action.onto]
  by_cases same : t = u
  · subst same
    by_cases there : c ∈ s.subscribers t
    · rw [if_pos there, if_neg (by simp [there])]
    · rw [if_neg there, if_pos ⟨rfl, there⟩, subscribers_put, if_pos rfl]
  · have elsewhere : ¬ (t = u ∧ c ∉ s.subscribers u) := fun both => same both.1
    rw [if_neg elsewhere]
    split
    · rfl
    · rw [subscribers_put, if_neg same]

theorem subscribers_set (s : Subscriptions) (t u : Target) (clients : List ClientId) :
    (s.set t clients).subscribers u = if t = u then clients else s.subscribers u := by
  unfold set
  split
  · next none =>
    rw [List.isEmpty_iff.1 none]
    simp only [subscribers, Table.find?_erase]
    split <;> rfl
  · exact subscribers_put clients

theorem subscribers_unsubscribe (s : Subscriptions) (t u : Target) (c : ClientId) :
    (s.unsubscribe t c).1.subscribers u = (Action.unsubscribe t c).onto u (s.subscribers u) := by
  simp only [unsubscribe, Action.onto]
  by_cases there : c ∈ s.subscribers t
  · rw [if_pos there, subscribers_set]
    split
    · next same => rw [same]
    · rfl
  · rw [if_neg there]
    split
    · next same =>
      subst same
      refine (List.filter_eq_self.2 fun d member => ?_).symm
      simpa using fun same : d = c => there (same ▸ member)
    · rfl

theorem Keyed.subscribers_removeClient (h : s.Keyed) (c : ClientId) (u : Target) :
    (s.removeClient c).1.subscribers u = (Action.remove c).onto u (s.subscribers u) := by
  have kept (table : Table Target (List ClientId)) (unique : (Table.keys table).Nodup) :
      (Table.find? ((table.map fun entry => (entry.1, entry.2.filter (· ≠ c))).filter
        fun entry => !entry.2.isEmpty) u).getD [] =
          ((Table.find? table u).getD []).filter (· ≠ c) := by
    induction table with
    | nil => rfl
    | cons entry rest ih =>
      obtain ⟨absent, unique⟩ : entry.1 ∉ Table.keys rest ∧ (Table.keys rest).Nodup :=
        List.nodup_cons.1 unique
      have later := ih unique
      rw [List.map_cons, List.filter_cons, Table.find?_cons]
      by_cases here : entry.1 = u
      · -- the target does not stand in the rest of the table, so nothing is found when it is dropped
        have none : Table.find? rest u = none := by
          cases found : Table.find? rest u with
          | none => rfl
          | some clients =>
            have stands := List.mem_map_of_mem (f := Prod.fst) (Table.mem_of_find? found)
            exact absurd (here ▸ stands) absent
        rw [none] at later
        rw [if_pos here, Option.getD_some]
        split
        · rw [Table.find?_cons, if_pos here]
          rfl
        · next empty =>
          rw [later]
          simpa using empty
      · rw [if_neg here, ← later]
        split
        · rw [Table.find?_cons, if_neg here]
        · rfl
  exact kept s.table h

theorem Keyed.subscribers_act (h : s.Keyed) (a : Action) (t : Target) :
    (s.act a).subscribers t = a.onto t (s.subscribers t) := by
  cases a with
  | subscribe u c => exact subscribers_subscribe s u t c
  | unsubscribe u c => exact subscribers_unsubscribe s u t c
  | remove c => exact h.subscribers_removeClient c t

theorem Keyed.act (h : s.Keyed) (a : Action) : (s.act a).Keyed := by
  cases a with
  | subscribe t c =>
    simp only [Subscriptions.act, Subscriptions.subscribe]
    split
    · exact h
    · exact Table.nodup_keys_put h t _
  | unsubscribe t c =>
    simp only [Subscriptions.act, Subscriptions.unsubscribe, Subscriptions.set]
    split
    · split
      · exact (Table.keys_erase_sublist s.table t).nodup h
      · exact Table.nodup_keys_put h t _
    · exact h
  | remove c =>
    have shorter : (Table.keys (s.removeClient c).1.table).Sublist (Table.keys s.table) := by
      have same : Table.keys (s.table.map fun entry => (entry.1, entry.2.filter (· ≠ c))) =
          Table.keys s.table := by
        simp [Table.keys, Function.comp_def]
      exact same ▸ List.filter_sublist.map Prod.fst
    exact shorter.nodup h

/-! ## Logs -/

theorem replay_append_one (log : List Action) (a : Action) :
    replay (log ++ [a]) = (replay log).act a := List.foldl_append

theorem keyed_replay (log : List Action) : (replay log).Keyed := by
  induction log using List.reverseRecOn with
  | nil => exact List.nodup_nil
  | append_singleton log a ih =>
    rw [replay_append_one]
    exact ih.act a

theorem subscribers_replay (log : List Action) (a : Action) (t : Target) :
    (replay (log ++ [a])).subscribers t = a.onto t ((replay log).subscribers t) := by
  rw [replay_append_one]
  exact (keyed_replay log).subscribers_act a t

/-- A client is interested after one more action if that is its subscribing, or if it was before and
the action does not end it. -/
theorem interested_append_one :
    Interested (log ++ [a]) t c ↔ a = .subscribe t c ∨ Interested log t c ∧ ¬ a.Ends t c := by
  constructor
  · rintro ⟨before, after, split, lasts⟩
    cases List.eq_nil_or_concat after with
    | inl none =>
      subst none
      have last := (List.append_inj' split rfl).2
      exact .inl (List.singleton_inj.1 last)
    | inr some =>
      obtain ⟨rest, final, rfl⟩ := some
      have shape : before ++ Action.subscribe t c :: (rest ++ [final]) =
          (before ++ Action.subscribe t c :: rest) ++ [final] := by simp
      rw [List.concat_eq_append, shape] at split
      obtain ⟨rfl, same⟩ := List.append_inj' split rfl
      obtain rfl := List.singleton_inj.1 same
      exact .inr ⟨⟨before, rest, rfl, fun b member => lasts b (by simp [member])⟩,
        lasts a (by simp)⟩
  · rintro (rfl | ⟨⟨before, after, rfl, lasts⟩, keeps⟩)
    · exact ⟨log, [], rfl, by simp⟩
    · refine ⟨before, after ++ [a], by simp, fun b member => ?_⟩
      rcases List.mem_append.1 member with early | last
      · exact lasts b early
      · exact List.mem_singleton.1 last ▸ keeps

theorem mem_onto {clients : List ClientId} :
    c ∈ a.onto t clients ↔ a = .subscribe t c ∨ c ∈ clients ∧ ¬ a.Ends t c := by
  cases a with
  | subscribe u d =>
    simp only [Action.onto, Action.Ends, Action.subscribe.injEq, not_false_eq_true, and_true]
    split
    · next new => simp [new.1, or_comm, eq_comm]
    · next old =>
      refine ⟨.inr, fun either => either.elim ?_ id⟩
      rintro ⟨rfl, rfl⟩
      by_contra absent
      exact old ⟨rfl, absent⟩
  | unsubscribe u d =>
    simp only [Action.onto, Action.Ends, reduceCtorEq, false_or]
    split
    · next same => simp [same, @eq_comm _ d c]
    · next other => simp [other]
  | remove d => simp [Action.onto, Action.Ends, @eq_comm _ d c]

/-- The subscribers of a target are the clients that are interested in it. -/
theorem mem_subscribers_replay : c ∈ (replay log).subscribers t ↔ Interested log t c := by
  induction log using List.reverseRecOn with
  | nil => simp [replay, subscribers, empty, Interested]
  | append_singleton log a ih => rw [subscribers_replay, mem_onto, interested_append_one, ih]

theorem Joined.lt (joined : Joined log t c i) : i < log.length :=
  (List.getElem?_eq_some_iff.1 joined.subscribes).1

/-- Where a client came in it stays, as long as nothing ends its interest. -/
theorem Joined.append_one {i : Nat} (joined : Joined log t c i) (keeps : ¬ a.Ends t c) :
    Joined (log ++ [a]) t c i where
  subscribes := (List.getElem?_append_left joined.lt).trans joined.subscribes
  absent := by
    rw [List.take_append_of_le_length (Nat.le_of_lt joined.lt)]
    exact joined.absent
  stays b member := by
    rw [List.drop_append_of_le_length joined.lt] at member
    rcases List.mem_append.1 member with early | last
    · exact joined.stays b early
    · exact List.mem_singleton.1 last ▸ keeps

/-- A client that subscribes without being interested comes in. -/
theorem joined_append_one (absent : ¬ Interested log t c) :
    Joined (log ++ [.subscribe t c]) t c log.length where
  subscribes := List.getElem?_concat_length
  absent := by rwa [List.take_left]
  stays := by simp

theorem Before.append_one (before : Before log t c d) (first : ¬ a.Ends t c)
    (second : ¬ a.Ends t d) : Before (log ++ [a]) t c d := by
  obtain ⟨i, j, joined, later, lt⟩ := before
  exact ⟨i, j, joined.append_one first, later.append_one second, lt⟩

/-- Every interested client came in somewhere. -/
theorem exists_joined (interested : Interested log t c) : ∃ i, Joined log t c i := by
  induction log using List.reverseRecOn with
  | nil =>
    obtain ⟨before, after, split, -⟩ := interested
    simp at split
  | append_singleton log a ih =>
    by_cases already : Interested log t c
    · obtain ⟨i, joined⟩ := ih already
      refine ⟨i, joined.append_one ?_⟩
      rcases interested_append_one.1 interested with rfl | ⟨-, keeps⟩
      · exact id
      · exact keeps
    · obtain rfl : a = .subscribe t c :=
        (interested_append_one.1 interested).resolve_right fun both => already both.1
      exact ⟨_, joined_append_one already⟩

/-- There is one place where a client came in. -/
theorem Joined.unique {i j : Nat} (joined : Joined log t c i) (other : Joined log t c j) :
    i = j := by
  -- whoever came in earlier was interested when it came in again
  have apart {i j : Nat} (first : Joined log t c i) (second : Joined log t c j) : ¬ i < j := by
    intro earlier
    apply second.absent
    refine ⟨log.take i, (log.take j).drop (i + 1), ?_, fun a member => first.stays a ?_⟩
    · have here : (log.take j)[i]? = some (.subscribe t c) := by
        rw [List.getElem?_take_of_lt earlier, first.subscribes]
      obtain ⟨inside, same⟩ := List.getElem?_eq_some_iff.1 here
      have front : (log.take j).take i = log.take i := by
        rw [List.take_take, Nat.min_eq_left (Nat.le_of_lt earlier)]
      rw [← same, List.getElem_cons_drop, ← front, List.take_append_drop]
    · rw [List.drop_take] at member
      exact List.mem_of_mem_take member
  have := apart joined other
  have := apart other joined
  omega

/-- The subscribers of a target stand in the order in which they came in. -/
theorem subscribers_pairwise (log : List Action) (t : Target) :
    ((replay log).subscribers t).Pairwise (Before log t) := by
  induction log using List.reverseRecOn with
  | nil => exact List.Pairwise.nil
  | append_singleton log a ih =>
    -- those that stay keep their order
    have kept {clients : List ClientId} (among : clients.Sublist ((replay log).subscribers t))
        (stay : ∀ c ∈ clients, ¬ a.Ends t c) : clients.Pairwise (Before (log ++ [a]) t) := by
      refine (ih.sublist among).imp_of_mem fun first second before => ?_
      exact before.append_one (stay _ first) (stay _ second)
    rw [subscribers_replay]
    cases a with
    | subscribe u c =>
      simp only [Action.onto]
      split
      · next new =>
        obtain ⟨rfl, absent⟩ := new
        rw [List.pairwise_append]
        refine ⟨kept (List.Sublist.refl _) fun _ _ => id, List.pairwise_singleton .., ?_⟩
        intro d member e last
        obtain rfl := List.mem_singleton.1 last
        obtain ⟨i, joined⟩ := exists_joined (mem_subscribers_replay.1 member)
        have outside := mt mem_subscribers_replay.2 absent
        exact ⟨i, _, joined.append_one id, joined_append_one outside, joined.lt⟩
      · exact kept (List.Sublist.refl _) fun _ _ => id
    | unsubscribe u c =>
      simp only [Action.onto]
      split
      · refine kept List.filter_sublist fun d member ends => ?_
        have other := (List.mem_filter.1 member).2
        simp [ends.2] at other
      · next other => exact kept (List.Sublist.refl _) fun d member ends => other ends.1
    | remove c =>
      refine kept List.filter_sublist fun d member ends => ?_
      have other := (List.mem_filter.1 member).2
      have same : c = d := ends
      simp [same] at other

theorem distinct_replay (log : List Action) : (replay log).Distinct := by
  induction log using List.reverseRecOn with
  | nil => exact distinct_empty
  | append_singleton log a ih =>
    rw [replay_append_one]
    cases a with
    | subscribe t c => exact ih.subscribe t c
    | unsubscribe t c => exact ih.unsubscribe t c
    | remove c => exact ih.removeClient c

/-! ## What the operations return -/

/-- To subscribe changes the subscribers exactly when the client was not among them. -/
theorem subscribe_snd (s : Subscriptions) (t : Target) (c : ClientId) :
    (s.subscribe t c).2 = true ↔ c ∉ s.subscribers t := by
  unfold subscribe
  split <;> simp_all

theorem unsubscribe_snd (s : Subscriptions) (t : Target) (c : ClientId) :
    (s.unsubscribe t c).2 = true ↔ c ∈ s.subscribers t := by
  unfold unsubscribe
  split <;> simp_all

theorem onto_ne_iff {clients : List ClientId} :
    a.onto t clients ≠ clients ↔
      a = .subscribe t a.client ∧ a.client ∉ clients ∨ a.client ∈ clients ∧ a.Ends t a.client := by
  cases a with
  | subscribe u c =>
    simp only [Action.onto, Action.client, Action.Ends, and_false, or_false,
      Action.subscribe.injEq, and_true]
    split
    · next new => simp [new]
    · next old => simp [old]
  | unsubscribe u c =>
    simp only [Action.onto, Action.client, Action.Ends, reduceCtorEq, false_and, false_or, and_true]
    split
    · next same => simp [same]
    · next other => simp [other]
  | remove c => simp [Action.onto, Action.client, Action.Ends]

/-- The targets at which a client stands are as many as removing it reports. -/
theorem Keyed.removeClient_snd (h : s.Keyed) (c : ClientId) :
    ∃ targets : Finset Target, (∀ t, t ∈ targets ↔ c ∈ s.subscribers t) ∧
      (s.removeClient c).2 = targets.card := by
  have unique : (Table.keys (s.table.filter fun entry => c ∈ entry.2)).Nodup :=
    (List.filter_sublist.map Prod.fst).nodup h
  refine ⟨(Table.keys (s.table.filter fun entry => c ∈ entry.2)).toFinset, fun t => ?_, ?_⟩
  · rw [h.mem_subscribers]
    simp only [List.mem_toFinset, Table.keys, List.mem_map, List.mem_filter, decide_eq_true_eq]
    constructor
    · rintro ⟨entry, ⟨stands, member⟩, same⟩
      exact ⟨entry, stands, same, member⟩
    · rintro ⟨entry, stands, same, member⟩
      exact ⟨entry, ⟨stands, member⟩, same⟩
  · rw [List.toFinset_card_of_nodup unique]
    simp [removeClient, Table.keys]

/-! ## Main result -/

/-- What a log says about a table. -/
structure Tells (log : List Action) (s : Subscriptions) : Prop where
  /-- Whoever is interested came in at one place. -/
  joined : ∀ t c, Interested log t c → ∃! i, Joined log t c i
  /-- A reply goes to its origin and to the others that are interested in its target, each once, in the
  order in which they came in. -/
  recipients : ∀ origin t, ∃ others, s.recipients origin (some t) = origin :: others ∧
    others.Nodup ∧ (∀ c, c ∈ others ↔ c ≠ origin ∧ Interested log t c) ∧
    others.Pairwise (Before log t)
  alone : ∀ origin, s.recipients origin none = [origin]
  /-- Subscribing tells whether it changed the subscribers, and does so for a client that was not
  interested. -/
  subscribed : ∀ t c,
    ((s.subscribe t c).2 = true ↔ (s.subscribe t c).1.subscribers t ≠ s.subscribers t) ∧
      ((s.subscribe t c).2 = true ↔ ¬ Interested log t c)
  unsubscribed : ∀ t c,
    ((s.unsubscribe t c).2 = true ↔ (s.unsubscribe t c).1.subscribers t ≠ s.subscribers t) ∧
      ((s.unsubscribe t c).2 = true ↔ Interested log t c)
  /-- Removing a client tells how many targets it was interested in. -/
  removed : ∀ c, ∃ targets : Finset Target, (∀ t, t ∈ targets ↔ Interested log t c) ∧
    (s.removeClient c).2 = targets.card
  /-- The subscribers of a target that an action does not concern stay as they are. -/
  elsewhere : ∀ (a : Action) t, ¬ a.Concerns t → (s.act a).subscribers t = s.subscribers t
  /-- The clients whose action it is not stay where they are, in the same order. -/
  others : ∀ (a : Action) t, ((s.act a).subscribers t).filter (· ≠ a.client) =
    (s.subscribers t).filter (· ≠ a.client)

/-- After every log the table is what the log says. -/
theorem tells_replay (log : List Action) : Tells log (replay log) := by
  have keyed := keyed_replay log
  constructor
  case joined =>
    intro t c interested
    obtain ⟨i, joined⟩ := exists_joined interested
    exact ⟨i, joined, fun j other => other.unique joined⟩
  case recipients =>
    intro origin t
    refine ⟨_, rfl, ((distinct_replay log).subscribers t).filter _, fun c => ?_,
      (subscribers_pairwise log t).sublist List.filter_sublist⟩
    rw [List.mem_filter, mem_subscribers_replay, and_comm, decide_eq_true_eq]
  case alone => exact fun origin => rfl
  case subscribed =>
    intro t c
    rw [subscribe_snd, subscribers_subscribe, onto_ne_iff, ← mem_subscribers_replay]
    simp [Action.client, Action.Ends]
  case unsubscribed =>
    intro t c
    rw [unsubscribe_snd, subscribers_unsubscribe, onto_ne_iff, ← mem_subscribers_replay]
    simp [Action.client, Action.Ends]
  case removed =>
    intro c
    obtain ⟨targets, members, count⟩ := keyed.removeClient_snd c
    exact ⟨targets, fun t => (members t).trans mem_subscribers_replay, count⟩
  case elsewhere =>
    intro a t apart
    rw [keyed.subscribers_act]
    cases a with
    | subscribe u c => exact if_neg fun both => apart both.1
    | unsubscribe u c => exact if_neg apart
    | remove c => exact absurd trivial apart
  case others =>
    intro a t
    rw [keyed.subscribers_act]
    cases a with
    | subscribe u c =>
      simp only [Action.onto, Action.client]
      split <;> simp
    | unsubscribe u c =>
      simp only [Action.onto, Action.client]
      split
      · exact List.filter_eq_self.2 fun d member => (List.mem_filter.1 member).2
      · rfl
    | remove c => exact List.filter_eq_self.2 fun d member => (List.mem_filter.1 member).2

/-- A client that leaves a target and comes back stands behind those that stayed. -/
example :
    (replay [.subscribe (.function "f") 1, .subscribe (.function "f") 2,
      .subscribe (.function "f") 1, .subscribe (.function "f") 3,
      .unsubscribe (.function "f") 1, .subscribe (.function "f") 1]).recipients 3
        (some (.function "f")) = [3, 2, 1] := by decide

end Patchbay.Subscriptions
