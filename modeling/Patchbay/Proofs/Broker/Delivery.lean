import Patchbay.Proofs.Broker.Handling

/-!
# Delivering over links that take every packet

Inside a process no packet is too large: a link takes whatever it is given, or it is closed. Then
nothing is ever withheld, and a reply is delivered to each recipient once, and to nobody else. What
the broker sends for an event are answers, never outputs.
-/

namespace Patchbay

/-- What a client is sent. -/
def packetsTo (c : ClientId) (effects : List Effect) : List Packet :=
  effects.filterMap fun
    | .deliver d p => if d = c then some p else none
    | _ => none

@[simp] theorem packetsTo_append (c : ClientId) (es fs : List Effect) :
    packetsTo c (es ++ fs) = packetsTo c es ++ packetsTo c fs := List.filterMap_append

theorem mem_packetsTo {c : ClientId} {effects : List Effect} {p : Packet} :
    p ∈ packetsTo c effects ↔ .deliver c p ∈ effects := by
  simp only [packetsTo, List.mem_filterMap]
  constructor
  · rintro ⟨e, member, sent⟩
    cases e with
    | deliver d q =>
      dsimp only at sent
      split at sent
      · next same =>
        cases sent
        exact same ▸ member
      · cases sent
    | hangUp d => cases sent
    | request r => cases sent
  · intro member
    exact ⟨_, member, by simp⟩

namespace Broker

variable {c d : ClientId} {b : Broker} {links : Links} {p q : Packet} {e : Event} {r : Reply}

/-! ## Staying -/

/-- Nobody goes but who is hung up on. -/
theorem send_keeps (kept : .hangUp c ∉ (b.send links d p).2) :
    Stays c b (b.send links d p).1 := by
  generalize outcome : b.send links d p = o at kept ⊢
  have sent := outcome ▸ send_sent links b d p
  cases sent with
  | last => exact .of_holds id .inl
  | more | unknown | whole => exact .refl c b
  | replaced => exact withhold_stays b p
  | lost =>
    have after := (removeClient_relays (x := p.tx) kept).stays
    exact (withhold_stays b p).trans after
  | gone => exact (removeClient_relays (x := p.tx) kept).stays

theorem sendAll_keeps {ds : List ClientId} (kept : .hangUp c ∉ (sendAll links p ds b).2) :
    Stays c b (sendAll links p ds b).1 := by
  induction ds generalizing b with
  | nil => exact .refl c b
  | cons d rest ih => exact (send_keeps (kept_first kept)).trans (ih (kept_second kept))

theorem handle_keeps (kept : .hangUp c ∉ (b.handle links true e).2) :
    Stays c b (b.handle links true e).1 := by
  have handled := handle_handled links b true e
  generalize b.handle links true e = o at kept handled ⊢
  cases handled with
  | accepts d => exact put_stays d false
  | closes d => exact (removeClient_relays (x := "") kept).stays
  | ignores | asks => exact .refl c b
  | answers known asks answered =>
    cases answered with
    | nothing => exact .refl c b
    | notes noted type tx => exact (noted.stays c).trans (send_keeps kept)
    | leaves type tx =>
      exact (send_keeps (kept_first kept)).trans
        (removeClient_relays (x := "") (kept_second kept)).stays

/-! ## Strangers and requests -/

theorem known_of_removeClient (known : Table.has (b.removeClient d).1.clients c) :
    Table.has b.clients c := by
  unfold removeClient at known
  split at known
  · simp only [Table.has, Table.find?_erase] at known
    split at known
    · cases known
    · exact known
  · exact known

theorem requests_removeClient (b : Broker) (d : ClientId) : requests (b.removeClient d).2 = [] := by
  unfold removeClient
  split <;> rfl

theorem withhold_clients (b : Broker) (d : ClientId) (p : Packet) :
    (b.withhold d p).clients = b.clients := by
  unfold withhold
  split <;> rfl

/-- Sending makes nobody known. -/
theorem known_of_send (known : Table.has (b.send links d p).1.clients c) :
    Table.has b.clients c := by
  generalize outcome : b.send links d p = o at known
  have sent := outcome ▸ send_sent links b d p
  cases sent with
  | last | more | unknown | whole => exact known
  | replaced => rwa [withhold_clients] at known
  | lost =>
    have before := known_of_removeClient known
    rwa [withhold_clients] at before
  | gone => exact known_of_removeClient known

theorem requests_send (links : Links) (b : Broker) (d : ClientId) (p : Packet) :
    requests (b.send links d p).2 = [] := by
  generalize outcome : b.send links d p = o
  have sent := outcome ▸ send_sent links b d p
  cases sent with
  | last | more | unknown | whole | replaced => rfl
  | lost | gone => exact requests_removeClient _ d

theorem known_of_sendAll {ds : List ClientId}
    (known : Table.has (sendAll links p ds b).1.clients c) : Table.has b.clients c := by
  induction ds generalizing b with
  | nil => exact known
  | cons d rest ih => exact known_of_send (ih known)

/-- Whoever is known was known before or is accepted now. -/
theorem known_of_handle (known : Table.has (b.handle links true e).1.clients c) :
    Table.has b.clients c ∨ e = .accepted c := by
  have handled := handle_handled links b true e
  generalize b.handle links true e = o at known handled
  cases handled with
  | accepts d =>
    simp only [Table.has, Table.find?_put] at known
    split at known
    · next same => exact .inr (congrArg Event.accepted same)
    · exact .inl known
  | closes d => exact .inl (known_of_removeClient known)
  | ignores | asks => exact .inl known
  | answers there asks answered =>
    cases answered with
    | nothing => exact .inl known
    | notes noted type tx => exact .inl (noted.known c (known_of_send known))
    | leaves type tx => exact .inl (known_of_send (known_of_removeClient known))

theorem requests_sendAll (links : Links) (p : Packet) (ds : List ClientId) (b : Broker) :
    requests (sendAll links p ds b).2 = [] := by
  induction ds generalizing b with
  | nil => rfl
  | cons d rest ih => simp only [sendAll, andThen, requests_append, requests_send, ih, List.append_nil]

/-- The machine is asked what the event asks, and nothing else. -/
theorem requests_handle (links : Links) (machineOpen : Bool) (b : Broker) (e : Event) :
    requests (b.handle links machineOpen e).2 = if machineOpen then (b.ask? e).toList else [] := by
  have handled := handle_handled links b machineOpen e
  generalize b.handle links machineOpen e = o at handled ⊢
  cases handled with
  | accepts d => simp [requests, ask?]
  | closes d => simp [requests_removeClient, ask?]
  | ignores stranger =>
    have none := Option.not_isSome_iff_eq_none.1 (by simpa [Table.has] using stranger)
    simp [requests, ask?, none]
  | asks known asks => simp [requests, asks]
  | fails known asks => simp [deliverReply, requests_sendAll]
  | answers known asks answered =>
    rw [asks]
    cases answered with
    | nothing => simp [requests]
    | notes noted type tx => simp [requests_send]
    | leaves type tx => simp [andThen, requests_send, requests_removeClient]

/-! ## What is delivered -/

theorem deliver_removeClient (b : Broker) (d : ClientId) :
    .deliver c p ∉ (b.removeClient d).2 := by
  unfold removeClient
  split <;> simp

/-- An answer is delivered as an answer. -/
theorem type_of_send (type : p.type = .respond) (sent : .deliver c q ∈ (b.send links d p).2) :
    q.type = .respond := by
  generalize outcome : b.send links d p = o at sent
  have all := outcome ▸ send_sent links b d p
  cases all with
  | last | more | unknown => cases sent
  | whole =>
    cases List.mem_singleton.1 sent
    exact type
  | replaced =>
    cases List.mem_singleton.1 sent
    rw [replacement_respond type]
  | lost | gone => exact absurd sent (deliver_removeClient _ d)

/-- What is sent for an event are answers. -/
theorem type_of_handle (sent : .deliver c q ∈ (b.handle links true e).2) : q.type = .respond := by
  have handled := handle_handled links b true e
  generalize b.handle links true e = o at sent handled
  cases handled with
  | accepts | ignores => cases sent
  | closes d => exact absurd sent (deliver_removeClient b d)
  | asks => simp at sent
  | answers known asks answered =>
    cases answered with
    | nothing => cases sent
    | notes noted type tx => exact type_of_send type sent
    | leaves type tx =>
      rcases List.mem_append.1 sent with answer | gone
      · exact type_of_send type answer
      · exact absurd gone (deliver_removeClient _ _)

/-! ## Links that take every packet -/

/-- No link refuses a packet for what it is. -/
def Carries (links : Links) : Prop := ∀ c p v, links c p ≠ .error (.violation v)

/-- Nothing is withheld, and no client is subscribed twice or without being known. -/
structure Plain (b : Broker) : Prop where
  free : b.undeliverable = []
  distinct : b.subscriptions.Distinct
  enrolled : ∀ c, Enrolled b c

theorem plain_init : Plain .init where
  free := rfl
  distinct := Subscriptions.distinct_empty
  enrolled c held := by
    obtain ⟨entry, member, -⟩ := held
    cases member

theorem Plain.removeClient (h : b.Plain) (d : ClientId) : (b.removeClient d).1.Plain := by
  unfold Broker.removeClient
  split
  · refine ⟨by simp [h.free], h.distinct.removeClient d, fun c held => ?_⟩
    have other : d ≠ c := by
      rintro rfl
      exact b.subscriptions.not_holds_removeClient d held
    have known := h.enrolled c (Subscriptions.holds_of_removeClient held)
    simpa [Table.has, Table.find?_erase, other] using known
  · exact h

theorem Plain.noted (h : b.Plain) {b' : Broker} (noted : b.Noted b') : b'.Plain :=
  ⟨noted.free.trans h.free, noted.distinct h.distinct, fun c => (noted.stays c).enrolled (h.enrolled c)⟩

/-- All that sending can come to over such links. -/
theorem Plain.send_cases (h : b.Plain) (carries : Carries links) (d : ClientId) (p : Packet) :
    Table.has b.clients d = false ∧ b.send links d p = (b, []) ∨
      Table.has b.clients d ∧ links d p = .ok () ∧ b.send links d p = (b, [.deliver d p]) ∨
      Table.has b.clients d ∧ links d p ≠ .ok () ∧ b.send links d p = b.removeClient d := by
  unfold send
  simp only [h.free, List.not_mem_nil, if_false]
  cases known : Table.has b.clients d with
  | false => exact .inl ⟨rfl, by simp⟩
  | true =>
    cases reached : links d p with
    | ok done => exact .inr (.inl ⟨rfl, rfl, by simp⟩)
    | error refusal =>
      cases refusal with
      | violation v => exact absurd reached (carries d p v)
      | _ => exact .inr (.inr ⟨rfl, by simp, by simp⟩)

theorem Plain.send (h : b.Plain) (carries : Carries links) (d : ClientId) (p : Packet) :
    (b.send links d p).1.Plain := by
  rcases h.send_cases carries d p with ⟨-, sent⟩ | ⟨-, -, sent⟩ | ⟨-, -, sent⟩
  · rw [sent]
    exact h
  · rw [sent]
    exact h
  · rw [sent]
    exact h.removeClient d

theorem Plain.sendAll (h : b.Plain) (carries : Carries links) (p : Packet) (ds : List ClientId) :
    (Broker.sendAll links p ds b).1.Plain := by
  induction ds generalizing b with
  | nil => exact h
  | cons d rest ih => exact ih (h.send carries d p)

theorem Plain.handle (h : b.Plain) (carries : Carries links) (e : Event) :
    (b.handle links true e).1.Plain := by
  have handled := handle_handled links b true e
  generalize b.handle links true e = o at handled ⊢
  cases handled with
  | accepts d => exact ⟨h.free, h.distinct, fun c => (put_stays d false).enrolled (h.enrolled c)⟩
  | closes d => exact h.removeClient d
  | ignores | asks => exact h
  | @answers _ d p o known asks answered =>
    cases answered with
    | nothing => exact h
    | notes noted type tx => exact (h.noted noted).send carries d _
    | leaves type tx => exact (h.send carries d _).removeClient d

/-! ## Who is reached -/

theorem Plain.send_linked (h : b.Plain) (carries : Carries links)
    (sent : .deliver c q ∈ (b.send links d p).2) : links c q = .ok () := by
  rcases h.send_cases carries d p with ⟨-, all⟩ | ⟨-, reached, all⟩ | ⟨-, -, all⟩
  · rw [all] at sent
    cases sent
  · rw [all] at sent
    cases List.mem_singleton.1 sent
    exact reached
  · rw [all] at sent
    exact absurd sent (deliver_removeClient b d)

theorem Plain.sendAll_linked (h : b.Plain) (carries : Carries links) {ds : List ClientId}
    (sent : .deliver c q ∈ (Broker.sendAll links p ds b).2) : links c q = .ok () := by
  induction ds generalizing b with
  | nil => cases sent
  | cons d rest ih =>
    rcases List.mem_append.1 sent with first | later
    · exact h.send_linked carries first
    · exact ih (h.send carries d p) later

/-- What is sent for an event reaches an open link. -/
theorem Plain.handle_linked (h : b.Plain) (carries : Carries links)
    (sent : .deliver c q ∈ (b.handle links true e).2) : links c q = .ok () := by
  have handled := handle_handled links b true e
  generalize b.handle links true e = o at sent handled
  cases handled with
  | accepts | ignores => cases sent
  | closes d => exact absurd sent (deliver_removeClient b d)
  | asks => simp at sent
  | @answers _ d p o known asks answered =>
    cases answered with
    | nothing => cases sent
    | notes noted type tx => exact (h.noted noted).send_linked carries sent
    | leaves type tx =>
      rcases List.mem_append.1 sent with answer | gone
      · exact h.send_linked carries answer
      · exact absurd gone (deliver_removeClient _ _)

/-- A client whose link is open is not hung up on, and gets what it is sent. -/
theorem Plain.send_open (h : b.Plain) (carries : Carries links)
    (up : links c p = .ok ()) (d : ClientId) :
    .hangUp c ∉ (b.send links d p).2 ∧
      packetsTo c (b.send links d p).2 = if d = c ∧ Table.has b.clients c then [p] else [] := by
  rcases h.send_cases carries d p with ⟨stranger, sent⟩ | ⟨known, reached, sent⟩ | ⟨known, lost, sent⟩
  · rw [sent]
    refine ⟨by simp, ?_⟩
    rw [if_neg]
    · rfl
    · rintro ⟨rfl, known⟩
      rw [stranger] at known
      cases known
  · rw [sent]
    refine ⟨by simp, ?_⟩
    by_cases same : d = c
    · subst same
      simp [packetsTo, known]
    · simp [packetsTo, same]
  · have apart : d ≠ c := by
      rintro rfl
      exact lost up
    rw [sent, if_neg (fun both => apart both.1), Broker.removeClient, if_pos known]
    simp [packetsTo, apart.symm]

/-- A reply is delivered once to each recipient that is known and whose link is open. -/
theorem Plain.sendAll_open (h : b.Plain) (carries : Carries links) (up : links c p = .ok ())
    {ds : List ClientId} (once : ds.Nodup) :
    .hangUp c ∉ (Broker.sendAll links p ds b).2 ∧
      packetsTo c (Broker.sendAll links p ds b).2 =
        if c ∈ ds ∧ Table.has b.clients c then [p] else [] := by
  induction ds generalizing b with
  | nil => simp [Broker.sendAll, packetsTo]
  | cons d rest ih =>
    obtain ⟨absent, once⟩ := List.nodup_cons.1 once
    obtain ⟨kept, first⟩ := h.send_open carries up d
    obtain ⟨keeps, later⟩ := ih (h.send carries d p) once
    have known : Table.has (b.send links d p).1.clients c ↔ Table.has b.clients c :=
      ⟨known_of_send, (send_keeps kept).known⟩
    simp only [Broker.sendAll, andThen]
    refine ⟨fun gone => (List.mem_append.1 gone).elim kept keeps, ?_⟩
    rw [packetsTo_append, first, later]
    by_cases same : d = c
    · subst same
      simp [absent]
    · have here : c ∈ d :: rest ∧ Table.has b.clients c ↔
          c ∈ rest ∧ Table.has (b.send links d p).1.clients c := by
        rw [List.mem_cons, known, or_iff_right (Ne.symm same)]
      rw [if_neg (fun both => same both.1), List.nil_append, if_congr here rfl rfl]

theorem Plain.deliverReply (h : b.Plain) (carries : Carries links) (r : Reply) :
    (b.deliverReply links r).1.Plain := h.sendAll carries r.packet _

theorem Plain.deliverReply_open (h : b.Plain) (carries : Carries links) {r : Reply}
    (up : links c r.packet = .ok ()) :
    .hangUp c ∉ (b.deliverReply links r).2 ∧
      packetsTo c (b.deliverReply links r).2 =
        if c ∈ b.subscriptions.recipients r.origin r.target ∧ Table.has b.clients c then [r.packet]
        else [] :=
  h.sendAll_open carries up (h.distinct.recipients r.origin r.target)

end Broker

end Patchbay
