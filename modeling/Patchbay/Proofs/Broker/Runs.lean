import Patchbay.Proofs.Broker.Checking

/-!
# Runs of the broker

A run of the broker takes events and replies in any order; at each of them the links may fail in any
way, and the machine may be gone. A client is accepted once. The broker knows exactly the clients that
were accepted and not hung up on, and it hangs up on a client only for what that client did, or
because neither a packet nor the failure in its place can be delivered to it.
-/

namespace Patchbay.Broker

variable {c d : ClientId} {b : Broker} {links : Links} {machineOpen connected : Bool} {p q : Packet}
  {input : Input} {o : Outcome}

/-! ## Who is dropped -/

/-- An outcome in which the broker knows the clients that it knew, except those that it hung up on.
-/
structure Drops (b : Broker) (o : Outcome) : Prop where
  gone : ∀ c, .hangUp c ∈ o.2 → Table.has b.clients c ∧ Table.find? o.1.clients c = none
  kept : ∀ c, .hangUp c ∉ o.2 → Table.find? o.1.clients c = Table.find? b.clients c

theorem Drops.quiet {effects : List Effect} {b' : Broker} (same : b'.clients = b.clients)
    (silent : ∀ c, .hangUp c ∉ effects) : Drops b (b', effects) where
  gone c gone := absurd gone (silent c)
  kept c _ := by rw [same]

theorem Drops.andThen {next : Broker → Outcome} (first : Drops b o) (second : Drops o.1 (next o.1)) :
    Drops b (andThen o next) where
  gone c gone := by
    by_cases earlier : .hangUp c ∈ o.2
    · obtain ⟨known, absent⟩ := first.gone c earlier
      have later : .hangUp c ∉ (next o.1).2 := by
        intro again
        have still := (second.gone c again).1
        simp [Table.has, absent] at still
      exact ⟨known, (second.kept c later).trans absent⟩
    · obtain ⟨known, absent⟩ := second.gone c ((List.mem_append.1 gone).resolve_left earlier)
      refine ⟨?_, absent⟩
      rwa [Table.has, first.kept c earlier] at known
  kept c kept := (second.kept c (kept_second kept)).trans (first.kept c (kept_first kept))

theorem removeClient_drops (b : Broker) (d : ClientId) : Drops b (b.removeClient d) := by
  unfold removeClient
  split
  · next known =>
    refine ⟨fun c gone => ?_, fun c kept => ?_⟩
    · obtain rfl : c = d := by simpa using gone
      exact ⟨known, by rw [Table.find?_erase, if_pos rfl]⟩
    · have apart : d ≠ c := by
        rintro rfl
        exact kept (List.mem_singleton_self _)
      rw [Table.find?_erase, if_neg apart]
  · exact .quiet rfl (by simp)

theorem send_drops (links : Links) (b : Broker) (d : ClientId) (p : Packet) :
    Drops b (b.send links d p) := by
  generalize outcome : b.send links d p = o
  have sent := outcome ▸ send_sent links b d p
  cases sent with
  | last | more | unknown | whole => exact .quiet rfl (by simp)
  | replaced => exact .quiet (b.withhold_clients d p) (by simp)
  | lost =>
    have same := b.withhold_clients d p
    have drops := (b.withhold d p).removeClient_drops d
    exact ⟨fun c gone => same ▸ drops.gone c gone, fun c kept => same ▸ drops.kept c kept⟩
  | gone => exact b.removeClient_drops d

theorem sendAll_drops (links : Links) (p : Packet) (ds : List ClientId) (b : Broker) :
    Drops b (sendAll links p ds b) := by
  induction ds generalizing b with
  | nil => exact .quiet rfl (by simp)
  | cons d rest ih => exact (send_drops links b d p).andThen (ih _)

/-- What the broker notes down about its clients before it sends anything. -/
inductive Notes (b : Broker) : Input → Table ClientId Bool → Prop where
  | accepts (c : ClientId) : Notes b (.event (.accepted c)) (Table.put b.clients c false)
  | greets {c : ClientId} {p : Packet} (known : Table.has b.clients c) (connect : ValidConnect p) :
      Notes b (.event (.packet c p)) (Table.put b.clients c true)
  | nothing {input : Input} (unaccepted : ∀ c, input ≠ .event (.accepted c))
      (ungreeted : ∀ c p, input = .event (.packet c p) → Table.has b.clients c →
        ¬ ValidConnect p) : Notes b input b.clients

theorem Took.drops (took : Took links b machineOpen input o) :
    ∃ b', Notes b input b'.clients ∧ Drops b' o := by
  -- a packet of a type that is not connect
  have other {c : ClientId} {p : Packet} (type : p.type ≠ .connect) :
      Notes b (.event (.packet c p)) b.clients := by
    refine .nothing (fun _ same => by cases same) fun d q same known connect => ?_
    cases same
    exact type connect.type
  cases took with
  | accepts c => exact ⟨_, .accepts c, .quiet rfl (by simp)⟩
  | closes c =>
    exact ⟨b, .nothing (fun _ same => by cases same) (fun _ _ same => by cases same),
      b.removeClient_drops c⟩
  | ignores stranger =>
    refine ⟨b, .nothing (fun _ same => by cases same) fun d q same known => ?_,
      .quiet rfl (by simp)⟩
    cases same
    simp [Table.has, stranger] at known
  | @refuses _ connected c p v found refused =>
    refine ⟨b, .nothing (fun _ same => by cases same) fun d q same known connect => ?_, ?_⟩
    · cases same
      exact connect.inOrder connected (check_error_iff.1 ⟨v, refused⟩)
    · exact (send_drops ..).andThen (removeClient_drops ..)
  | greets known connect => exact ⟨_, .greets known connect, send_drops ..⟩
  | leaves found type =>
    exact ⟨b, other (by simp [type]), (send_drops ..).andThen (removeClient_drops ..)⟩
  | @subscribes _ c p t found type =>
    exact ⟨{ b with subscriptions := (b.subscriptions.subscribe t c).1 }, other (by simp [type]),
      send_drops ..⟩
  | @unsubscribes _ c p q t found type target answer =>
    exact ⟨{ b with subscriptions := (b.subscriptions.unsubscribe t c).1 }, other (by simp [type]),
      send_drops ..⟩
  | @asks c p r found valid asks =>
    have type : p.type ≠ .connect := by
      cases r with
      | execute d t q => simp [asks.2.2.1]
      | cancel d tx => simp [asks.2.1]
    exact ⟨b, other type, .quiet rfl (by simp)⟩
  | @fails c p r found asks =>
    have type : p.type ≠ .connect := by
      cases r with
      | execute d t q => simp [asks.2.2.1]
      | cancel d tx => simp [asks.2.1]
    exact ⟨b, other type, sendAll_drops ..⟩
  | replies r =>
    exact ⟨b, .nothing (fun _ same => by cases same) (fun _ _ same => by cases same),
      sendAll_drops ..⟩

/-! ## Runs -/

/-- One input of a run: how the links were then, whether there was a machine, and what was done. -/
structure Round where
  links : Links
  machineOpen : Bool
  input : Input
  effects : List Effect

/-- All that the broker has taken since it was started. No client is accepted twice. -/
inductive Run : List Round → Broker → Prop where
  | start : Run [] .init
  | take {rounds : List Round} {b : Broker} (links : Links) (machineOpen : Bool) (input : Input)
      (before : Run rounds b)
      (fresh : ∀ c, input = .event (.accepted c) →
        ∀ round ∈ rounds, round.input ≠ .event (.accepted c)) :
      Run (rounds ++ [⟨links, machineOpen, input, (b.take links machineOpen input).2⟩])
        (b.take links machineOpen input).1

/-- A client was accepted and not hung up on since. -/
def Present (rounds : List Round) (c : ClientId) : Prop :=
  (∃ round ∈ rounds, round.input = .event (.accepted c)) ∧
    ∀ round ∈ rounds, .hangUp c ∉ round.effects

variable {rounds before after : List Round} {round : Round}

theorem present_append_one :
    Present (rounds ++ [round]) c ↔
      ((∃ r ∈ rounds, r.input = .event (.accepted c)) ∨ round.input = .event (.accepted c)) ∧
        (∀ r ∈ rounds, .hangUp c ∉ r.effects) ∧ .hangUp c ∉ round.effects := by
  simp [Present, or_imp, forall_and, or_and_right, exists_or]

/-- What the broker knows of a client that it does not hang up on. -/
theorem take_known (links : Links) (machineOpen : Bool) (b : Broker) (input : Input)
    (kept : .hangUp c ∉ (b.take links machineOpen input).2) :
    Table.has (b.take links machineOpen input).1.clients c ↔
      Table.has b.clients c ∨ input = .event (.accepted c) := by
  obtain ⟨b', notes, drops⟩ := (take_took links machineOpen b input).drops
  rw [Table.has, drops.kept c kept]
  generalize b'.clients = clients at notes
  cases notes with
  | accepts d =>
    rw [Table.find?_put]
    by_cases same : d = c
    · simp [same]
    · simp [same, Table.has]
  | @greets d p known connect =>
    rw [Table.find?_put]
    by_cases same : d = c
    · simp [same ▸ known, same]
    · simp [same, Table.has]
  | nothing unaccepted ungreeted => simp [unaccepted c, Table.has]

theorem take_gone (links : Links) (machineOpen : Bool) (b : Broker) (input : Input)
    (gone : .hangUp c ∈ (b.take links machineOpen input).2) :
    (Table.has b.clients c ∨ input = .event (.accepted c)) ∧
      Table.find? (b.take links machineOpen input).1.clients c = none := by
  obtain ⟨b', notes, drops⟩ := (take_took links machineOpen b input).drops
  obtain ⟨known, absent⟩ := drops.gone c gone
  refine ⟨?_, absent⟩
  generalize b'.clients = clients at notes known
  cases notes with
  | accepts d =>
    rw [Table.has, Table.find?_put] at known
    by_cases same : d = c
    · exact .inr (by rw [same])
    · rw [if_neg same] at known
      exact .inl known
  | @greets d p there connect =>
    rw [Table.has, Table.find?_put] at known
    by_cases same : d = c
    · exact .inl (same ▸ there)
    · rw [if_neg same] at known
      exact .inl known
  | nothing unaccepted ungreeted => exact .inl known

/-- The broker hangs up only on clients that were accepted, and knows those that it did not hang up
on. -/
theorem Run.knows (run : Run rounds b) (c : ClientId) :
    (Table.has b.clients c ↔ Present rounds c) ∧
      (∀ round ∈ rounds, .hangUp c ∈ round.effects →
        ∃ round ∈ rounds, round.input = .event (.accepted c)) := by
  induction run with
  | start => simp [Present, init, Table.has]
  | @take rounds b links machineOpen input before fresh ih =>
    obtain ⟨known, accepted⟩ := ih
    constructor
    · rw [present_append_one]
      by_cases gone : .hangUp c ∈ (b.take links machineOpen input).2
      · simp [Table.has, (take_gone links machineOpen b input gone).2, gone]
      · rw [take_known links machineOpen b input gone, known, Present]
        constructor
        · rintro (⟨there, kept⟩ | now)
          · exact ⟨.inl there, kept, gone⟩
          · refine ⟨.inr now, fun round member hung => ?_, gone⟩
            obtain ⟨earlier, member, same⟩ := accepted round member hung
            exact fresh c now earlier member same
        · rintro ⟨there | now, kept, -⟩
          · exact .inl ⟨there, kept⟩
          · exact .inr now
    · intro round member hung
      rcases List.mem_append.1 member with old | new
      · obtain ⟨earlier, member, same⟩ := accepted round old hung
        exact ⟨earlier, List.mem_append_left _ member, same⟩
      · obtain rfl := List.mem_singleton.1 new
        rcases (take_gone links machineOpen b input hung).1 with there | now
        · obtain ⟨earlier, member, same⟩ := (known.1 there).1
          exact ⟨earlier, List.mem_append_left _ member, same⟩
        · exact ⟨_, List.mem_append_right _ (List.mem_singleton_self _), now⟩

theorem Run.known_iff (run : Run rounds b) : Table.has b.clients c ↔ Present rounds c :=
  (run.knows c).1

/-- An element of a list that grew by one is the new one, or stood in the list before. -/
theorem split_append_one {α : Type} {front before after : List α} {last x : α}
    (split : front ++ [last] = before ++ x :: after) :
    (front = before ∧ last = x ∧ after = []) ∨
      ∃ rest, after = rest ++ [last] ∧ front = before ++ x :: rest := by
  cases List.eq_nil_or_concat after with
  | inl none =>
    subst none
    obtain ⟨rfl, same⟩ := List.append_inj' split rfl
    exact .inl ⟨rfl, List.singleton_inj.1 same, rfl⟩
  | inr some =>
    obtain ⟨rest, final, rfl⟩ := some
    have shape : before ++ x :: (rest ++ [final]) = (before ++ x :: rest) ++ [final] := by simp
    rw [List.concat_eq_append, shape] at split
    obtain ⟨rfl, same⟩ := List.append_inj' split rfl
    obtain rfl := List.singleton_inj.1 same
    exact .inr ⟨rest, List.concat_eq_append, rfl⟩

/-- Every round of a run takes its input from where the rounds before it led. -/
theorem Run.at_round (run : Run rounds b) (split : rounds = before ++ round :: after) :
    ∃ past, Run before past ∧
      (∀ c, round.input = .event (.accepted c) →
        ∀ earlier ∈ before, earlier.input ≠ .event (.accepted c)) ∧
      round.effects = (past.take round.links round.machineOpen round.input).2 ∧
      Run (before ++ [round]) (past.take round.links round.machineOpen round.input).1 := by
  induction run generalizing after with
  | start => simp at split
  | @take rounds b links machineOpen input earlier fresh ih =>
    rcases split_append_one split with ⟨rfl, rfl, -⟩ | ⟨rest, -, rfl⟩
    · exact ⟨b, earlier, fresh, rfl, earlier.take links machineOpen input fresh⟩
    · exact ih rfl

/-- The last round of a run takes its input from where the others led. -/
theorem Run.last (run : Run (rounds ++ [round]) b) :
    ∃ past, Run rounds past ∧ b = (past.take round.links round.machineOpen round.input).1 ∧
      round.effects = (past.take round.links round.machineOpen round.input).2 := by
  generalize whole : rounds ++ [round] = all at run
  cases run with
  | start => simp at whole
  | take links machineOpen input before fresh =>
    obtain ⟨rfl, same⟩ := List.append_inj' whole rfl
    obtain rfl := List.singleton_inj.1 same
    exact ⟨_, before, rfl, rfl⟩

/-- The rounds of a run tell where it leads. -/
theorem Run.unique {b' : Broker} (run : Run rounds b) (other : Run rounds b') : b = b' := by
  induction run generalizing b' with
  | start =>
    generalize none : ([] : List Round) = rounds at other
    cases other with
    | start => rfl
    | take => simp at none
  | take links machineOpen input before fresh ih =>
    obtain ⟨past, earlier, rfl, -⟩ := other.last
    rw [ih earlier]

/-- A round of a run, with the broker before and after it. -/
inductive Between (rounds : List Round) (past : Broker) (round : Round) (next : Broker) : Prop where
  | mk {before after : List Round} (split : rounds = before ++ round :: after)
      (earlier : Run before past) (later : Run (before ++ [round]) next)

namespace Between

variable {past next : Broker}

theorem member (between : Between rounds past round next) : round ∈ rounds := by
  cases between with
  | mk split earlier later => simp [split]

theorem next_eq (between : Between rounds past round next) :
    next = (past.take round.links round.machineOpen round.input).1 := by
  cases between with
  | mk split earlier later =>
    obtain ⟨state, before, rfl, -⟩ := later.last
    rw [earlier.unique before]

end Between

/-- Every round of a run is between two states. -/
theorem Run.between (run : Run rounds b) (member : round ∈ rounds) :
    ∃ past, Between rounds past round (past.take round.links round.machineOpen round.input).1 ∧
      round.effects = (past.take round.links round.machineOpen round.input).2 := by
  obtain ⟨before, after, split⟩ := List.append_of_mem member
  obtain ⟨past, earlier, -, effects, later⟩ := run.at_round split
  exact ⟨past, ⟨split, earlier, later⟩, effects⟩

/-! ## Taking inputs one after the other -/

/-- The client that is accepted. -/
def Input.accepted? : Input → Option ClientId
  | .event (.accepted c) => some c
  | _ => none

theorem Input.accepted?_eq_some : input.accepted? = some c ↔ input = .event (.accepted c) := by
  constructor
  · intro accepted
    cases input with
    | reply r => cases accepted
    | event e =>
      cases e with
      | accepted d =>
        cases accepted
        rfl
      | _ => cases accepted
  · rintro rfl
    rfl

/-- The rounds by which a broker takes some inputs, with the links and the machine at each of them,
and the broker behind them. -/
def takeAll (b : Broker) : List (Links × Bool × Input) → List Round × Broker
  | [] => ([], b)
  | (links, machineOpen, input) :: rest =>
    let o := b.take links machineOpen input
    let (rounds, last) := takeAll o.1 rest
    (⟨links, machineOpen, input, o.2⟩ :: rounds, last)

/-- No client is accepted twice, in what was taken and in what is to come. -/
def Fresh (rounds : List Round) (inputs : List (Links × Bool × Input)) : Prop :=
  (rounds.filterMap (·.input.accepted?) ++ inputs.filterMap (·.2.2.accepted?)).Nodup

instance (rounds : List Round) (inputs : List (Links × Bool × Input)) :
    Decidable (Fresh rounds inputs) := inferInstanceAs (Decidable (List.Nodup _))

namespace Fresh

variable {inputs : List (Links × Bool × Input)} {effects : List Effect}

theorem first (fresh : Fresh rounds ((links, machineOpen, input) :: inputs)) :
    ∀ c, input = .event (.accepted c) → ∀ round ∈ rounds, round.input ≠ .event (.accepted c) := by
  intro c accepts round member again
  have early : c ∈ rounds.filterMap (·.input.accepted?) :=
    List.mem_filterMap.2 ⟨round, member, Input.accepted?_eq_some.2 again⟩
  have late : c ∈ ((links, machineOpen, input) :: inputs).filterMap (·.2.2.accepted?) :=
    List.mem_filterMap.2 ⟨_, List.mem_cons_self, Input.accepted?_eq_some.2 accepts⟩
  exact (List.nodup_append.1 fresh).2.2 c early c late rfl

theorem later (fresh : Fresh rounds ((links, machineOpen, input) :: inputs)) :
    Fresh (rounds ++ [⟨links, machineOpen, input, effects⟩]) inputs := by
  unfold Fresh at fresh ⊢
  cases accepted : input.accepted? <;> simpa [List.filterMap_cons, accepted] using fresh

end Fresh

/-- Any inputs can be taken one after the other in which no client is accepted twice. -/
theorem Run.takeAll (run : Run rounds b) (inputs : List (Links × Bool × Input))
    (fresh : Fresh rounds inputs) :
    Run (rounds ++ (b.takeAll inputs).1) (b.takeAll inputs).2 := by
  induction inputs generalizing rounds b with
  | nil => simpa [Broker.takeAll] using run
  | cons first rest ih =>
    obtain ⟨links, machineOpen, input⟩ := first
    have next := run.take links machineOpen input fresh.first
    simpa [Broker.takeAll] using ih next fresh.later

/-! ## Why a client is dropped -/

/-- Neither a packet nor the failure in its place can be delivered. -/
def Unreached (links : Links) (c : ClientId) (p : Packet) : Prop :=
  (∃ e, links c p = .error e ∧ ∀ v, e ≠ .violation v) ∨
    ∃ v e, links c p = .error (.violation v) ∧ links c (replacement p v) = .error e

theorem hangUp_removeClient (gone : .hangUp c ∈ (b.removeClient d).2) : c = d := by
  unfold removeClient at gone
  split at gone
  · simpa using gone
  · cases gone

theorem hangUp_send (gone : .hangUp c ∈ (b.send links d p).2) : c = d ∧ Unreached links c p := by
  unfold send at gone
  dsimp only at gone
  split at gone
  · split at gone <;> cases gone
  · split at gone
    · cases gone
    · split at gone
      · simp at gone
      · next v large =>
        split at gone
        · simp at gone
        · next e failed =>
          obtain rfl := hangUp_removeClient gone
          exact ⟨rfl, .inr ⟨v, e, large, failed⟩⟩
      · next e others failed =>
        obtain rfl := hangUp_removeClient gone
        exact ⟨rfl, .inl ⟨e, failed, fun v same => others v same⟩⟩

theorem hangUp_sendAll {ds : List ClientId} (gone : .hangUp c ∈ (sendAll links p ds b).2) :
    c ∈ ds ∧ Unreached links c p := by
  induction ds generalizing b with
  | nil => cases gone
  | cons d rest ih =>
    rcases List.mem_append.1 gone with first | later
    · obtain ⟨rfl, unreached⟩ := hangUp_send first
      exact ⟨List.mem_cons_self, unreached⟩
    · obtain ⟨among, unreached⟩ := ih later
      exact ⟨List.mem_cons_of_mem d among, unreached⟩

/-- What the broker sends a client for an input that does not cost the client its connection. -/
inductive SentTo (b : Broker) (c : ClientId) : Input → Packet → Prop where
  | reply {r : Reply} (among : c ∈ b.subscriptions.recipients r.origin r.target) :
      SentTo b c (.reply r) r.packet
  | ok (p : Packet) : SentTo b c (.event (.packet c p)) (.respondOk p.tx)
  | unsubscribe {p q : Packet} {t : Target} (target : p.target = .ok t)
      (answer : UnsubscribeAnswer p t q) : SentTo b c (.event (.packet c p)) q
  | unavailable {d : ClientId} {p : Packet} {r : Request} (asks : Asks d p r)
      (among : c ∈ b.subscriptions.recipients (unavailable r).origin (unavailable r).target) :
      SentTo b c (.event (.packet d p)) (unavailable r).packet

/-- What a client does by which it loses its connection. -/
inductive Leaves (connected : Bool) (c : ClientId) : Input → Prop where
  | closed : Leaves connected c (.event (.closed c))
  | disconnect {p : Packet} (type : p.type = .disconnect) : Leaves connected c (.event (.packet c p))
  | offence {p : Packet} (offends : Offends connected p) : Leaves connected c (.event (.packet c p))

theorem Leaves.own (leaves : Leaves connected c input) :
    input = .event (.closed c) ∨ ∃ p, input = .event (.packet c p) := by
  cases leaves with
  | closed => exact .inl rfl
  | disconnect | offence => exact .inr ⟨_, rfl⟩

/-- A client is hung up on for what it did, or for a packet that cannot be delivered. -/
theorem Took.hangUp_cause (took : Took links b machineOpen input o) (gone : .hangUp c ∈ o.2) :
    (∃ connected, Table.find? b.clients c = some connected ∧ Leaves connected c input) ∨
      ∃ q, SentTo b c input q ∧ Unreached links c q := by
  cases took with
  | accepts d => cases gone
  | closes d =>
    obtain rfl := hangUp_removeClient gone
    obtain ⟨known, -⟩ := (b.removeClient_drops c).gone c gone
    obtain ⟨connected, found⟩ := Option.isSome_iff_exists.1 known
    exact .inl ⟨connected, found, .closed⟩
  | ignores stranger => cases gone
  | @refuses _ connected d p v found refused =>
    have mine : c = d := by
      rcases List.mem_append.1 gone with first | later
      · exact (hangUp_send first).1
      · exact hangUp_removeClient later
    subst mine
    exact .inl ⟨connected, found, .offence (check_error_iff.1 ⟨v, refused⟩)⟩
  | greets known connect =>
    obtain ⟨rfl, unreached⟩ := hangUp_send gone
    exact .inr ⟨_, .ok _, unreached⟩
  | @leaves _ d p found type =>
    have mine : c = d := by
      rcases List.mem_append.1 gone with first | later
      · exact (hangUp_send first).1
      · exact hangUp_removeClient later
    subst mine
    exact .inl ⟨true, found, .disconnect type⟩
  | subscribes found type =>
    obtain ⟨rfl, unreached⟩ := hangUp_send gone
    exact .inr ⟨_, .ok _, unreached⟩
  | @unsubscribes _ d p q t found type target answer =>
    obtain ⟨rfl, unreached⟩ := hangUp_send gone
    exact .inr ⟨_, .unsubscribe target answer, unreached⟩
  | asks found valid asks => simp at gone
  | fails found asks =>
    obtain ⟨among, unreached⟩ := hangUp_sendAll gone
    exact .inr ⟨_, .unavailable asks among, unreached⟩
  | replies r =>
    obtain ⟨among, unreached⟩ := hangUp_sendAll gone
    exact .inr ⟨_, .reply among, unreached⟩

/-- A client that leaves is hung up on. -/
theorem hangUp_of_leaves (links : Links) (machineOpen : Bool)
    (found : Table.find? b.clients c = some connected) (leaves : Leaves connected c input) :
    .hangUp c ∈ (b.take links machineOpen input).2 := by
  have known : Table.has b.clients c := Option.isSome_iff_exists.2 ⟨connected, found⟩
  cases leaves with
  | closed => exact hangUp_of_known known
  | @disconnect p type =>
    cases checked : check connected p with
    | error v =>
      simp only [take, handle, handlePacket, found, checked]
      exact hangUp_of_refused known v
    | ok target =>
      simp only [take, handle, handlePacket, found, checked, act, type]
      -- sending the answer leaves the client known, or hangs up on it
      by_cases kept : .hangUp c ∈ (b.answerOk links c p.tx).2
      · exact List.mem_append_left _ kept
      · exact List.mem_append_right _ (hangUp_of_known (send_stays kept known))
  | @offence p offends =>
    obtain ⟨v, refused⟩ := check_error_iff.2 offends
    simp only [take, handle, handlePacket, found, refused]
    exact hangUp_of_refused known v

end Patchbay.Broker
