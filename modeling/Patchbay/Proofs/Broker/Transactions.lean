import Patchbay.Proofs.Frames
import Patchbay.Proofs.Broker.Traffic

/-!
# Transactions over a broker

What a client gets of a transaction of one execute and its cancels, whatever else goes on: the
stream of the execute, ended once, and an answer to every cancel, unless an answer comes in the
middle of a stream that is withheld: one to a cancel, or the last reply to another client under the
same id. The broker takes that answer for the end of the stream. A client then gets what is left of
the stream behind the failure that ended it, and no answer.
-/

namespace Patchbay.Traffic

open Broker (EndsOnce endings answers Crossed offeredTo OwnOnly)

/-- What a client may expect of a transaction: its execute ends at most once, no reply to it comes
behind, and each cancel is pending or was answered. -/
structure Served (c : ClientId) (x : String) (w : Traffic) : Prop where
  once : endings (deliveredTo c x w.effects) ≤ 1
  ends : EndsOnce (deliveredTo c x w.effects)
  answered : Balanced (asksCancel c x) (isCancel c x) w.pending w.heard
    (answers (deliveredTo c x w.effects))

/-! ## Runs in which a stream is withheld -/

/-- A text that fills a frame by itself. -/
def long : String := String.ofList (List.replicate Frame.limit 'x')

/-- An output that is too large, with more to follow. -/
def flood : Packet := .output "t" 0 false (.string long)

/-- What is sent in its place. -/
def failure : Packet := .outputFault "t" 0 (.violation (.tooLarge "frame" 16777263 Frame.limit))

/-- What follows. -/
def final : Packet := .output "t" 1 true .null

def call : Packet := .callFunction "t" "f" .null

def question : Request := .execute 0 (.function "f") call

/-- Another client calls another function under the same id. -/
def otherCall : Packet := .callFunction "t" "g" .null

def otherQuestion : Request := .execute 1 (.function "g") otherCall

/-- Every client is on an open socket. -/
def everyone : ClientId → Socket := fun _ => .start

/-- What a client sends is heard. -/
def send (w : Traffic) (d : ClientId) (p : Packet) : Traffic := w.event everyone true (.packet d p)

/-- The last of the requests is settled; the others stay. -/
def settle (w : Traffic) (others : List Request) (r : Request) (q : Packet) : Traffic :=
  { w with pending := others }.reply everyone ⟨1, r.origin, r.target?, q⟩

/-- A client has connected and called a function. -/
def opened : Traffic :=
  ((start.event everyone true (.accepted 0)).send 0 (.connect "k")).send 0 call

/-- The first reply was too large. -/
def flooded : Traffic where
  broker := ⟨[(0, true)], .empty, [(0, "t")]⟩
  pending := [question]
  heard := [.accepted 0, .packet 0 (.connect "k"), .packet 0 call]
  offers := [(0, ⟨0, 0, some (.function "f"), flood⟩)]
  effects := [.deliver 0 (.respondOk "k"), .request question, .deliver 0 failure]

theorem encode_flood :
    Frame.encode flood = .error (.tooLarge "frame" 16777263 Frame.limit) := by
  have length : (Bytes.ofText long).length = 16777216 :=
    Bytes.length_ofText_replicate Frame.limit 'x'
  have large : Frame.encode (.output "t" 0 false (.string long)) = _ :=
    Frame.encode_long_output (by decide) (by rw [length]; decide) (by rw [length]; decide)
  have short : (Bytes.ofText "t").length = 1 := rfl
  rw [short, length] at large
  exact large

/-- A client that gets the failure in place of the first reply. -/
theorem send_flood {b : Broker} (c : ClientId) (free : b.withholds c "t" = false)
    (known : Table.has b.clients c) :
    b.send (links everyone) c flood = (b.withhold c flood, [.deliver c failure]) := by
  have linked : Broker.Connected (links everyone) c := connected rfl
  have large := linked flood
  rw [encode_flood] at large
  exact Broker.send_replaced free known large (linked failure)

theorem not_hungUp {c : ClientId} {effects : List Effect}
    (all : (effects.all fun | .hangUp d => d != c | _ => true) = true) : .hangUp c ∉ effects := by
  intro member
  simpa using List.all_eq_true.1 all _ member

theorem Run.hear {w : Traffic} (run : Run 0 w) {e : Event}
    (order : ∀ d p, e = .packet d p → .accepted d ∈ w.heard)
    (kept : .hangUp 0 ∉ (w.event everyone true e).effects) : Run 0 (w.event everyone true e) := by
  have step : Step everyone w _ := .event true e order
  exact run.step rfl step kept

theorem Run.send {w : Traffic} {d : ClientId} (run : Run 0 w) (accepted : .accepted d ∈ w.heard)
    (p : Packet) (kept : .hangUp 0 ∉ (w.send d p).effects) : Run 0 (w.send d p) := by
  refine run.hear ?_ kept
  rintro e q ⟨rfl, rfl⟩
  exact accepted

theorem Run.settle {w : Traffic} (run : Run 0 w) (others : List Request) (r : Request) (q : Packet)
    (asked : w.pending = others ++ [r]) (settles : r.Settles q)
    (kept : .hangUp 0 ∉ (w.settle others r q).effects) : Run 0 (w.settle others r q) := by
  have step : Step everyone w _ := .last 1 asked settles
  rw [List.append_nil] at step
  exact run.step rfl step kept

theorem run_opened : Run 0 opened := by
  have none : Run 0 start := .start
  have accepted := none.hear (e := .accepted 0) (by simp) (not_hungUp rfl)
  have connected := accepted.send (d := 0) (by simp [event, start]) (.connect "k") (not_hungUp rfl)
  exact connected.send (d := 0) (by simp [event, start, Traffic.send]) call (not_hungUp rfl)

theorem reply_flood :
    opened.reply everyone ⟨0, question.origin, question.target?, flood⟩ = flooded := by
  have sent : opened.broker.send (links everyone) 0 flood =
      (opened.broker.withhold 0 flood, [.deliver 0 failure]) := send_flood 0 rfl rfl
  have delivered : opened.broker.deliverReply (links everyone)
      ⟨0, question.origin, question.target?, flood⟩ = _ := Broker.deliverReply_alone rfl
  rw [reply, delivered]
  simp only [question, Request.origin, sent]
  rfl

theorem run_flooded : Run 0 flooded := by
  have asked : question ∈ opened.pending := List.mem_singleton_self question
  have step : Step everyone opened flooded :=
    reply_flood ▸ .more 0 asked ⟨rfl, rfl, rfl⟩
  exact run_opened.step rfl step (not_hungUp rfl)

/-- Cancels an execute whose stream was withheld and has ended. -/
def settled : Traffic :=
  ((flooded.settle [] question final).send 0 (.cancel "t")).settle [] (.cancel 0 "t")
    (.respondOk "t")

/-- Cancels an execute whose stream is withheld. -/
def crossed : Traffic :=
  ((flooded.send 0 (.cancel "t")).settle [question] (.cancel 0 "t") (.respondOk "t")).settle []
    question final

/-- A client subscribes to the other function, while its stream is withheld, and the other client calls
that. -/
def joinedBy : Traffic :=
  (((flooded.send 0 (.subscribe "s" (.function "g"))).event everyone true (.accepted 1)).send 1
    (.connect "l")).send 1 otherCall

/-- The other client is answered before the stream ends. -/
def shared : Traffic :=
  (joinedBy.settle [question] otherQuestion (.output "t" 0 true .null)).settle [] question final

/-- Of what the first client sends, one execute and cancels of it are under the id. -/
theorem oneExecute {w : Traffic} (sent : ∀ p, .packet 0 p ∈ w.heard →
      p ∈ [.connect "k", call, .subscribe "s" (.function "g"), .cancel "t"])
    (once : w.heard.countP (isExecute 0 "t") ≤ 1) : OneExecute 0 "t" w where
  kinds p member tx := by
    have sent := sent p member
    simp only [List.mem_cons, List.not_mem_nil, or_false] at sent
    rcases sent with rfl | rfl | rfl | rfl
    · exact absurd tx (by decide)
    · exact .inl rfl
    · exact absurd tx (by decide)
    · exact .inr rfl
  once := once

theorem oneExecute_cancelled {w : Traffic}
    (heard : w.heard = flooded.heard ++ [.packet 0 (.cancel "t")]) : OneExecute 0 "t" w := by
  refine oneExecute (fun p member => ?_) (by rw [heard]; decide)
  have sent : p = .connect "k" ∨ p = call ∨ p = .cancel "t" := by
    simpa [heard, flooded] using member
  rcases sent with rfl | rfl | rfl <;> simp

theorem oneExecute_shared : OneExecute 0 "t" shared := by
  have heard : shared.heard = flooded.heard ++ [.packet 0 (.subscribe "s" (.function "g")),
    .accepted 1, .packet 1 (.connect "l"), .packet 1 otherCall] := rfl
  refine oneExecute (fun p member => ?_) (by rw [heard]; decide)
  have sent : p = .connect "k" ∨ p = call ∨ p = .subscribe "s" (.function "g") := by
    simpa [heard, flooded] using member
  rcases sent with rfl | rfl | rfl <;> simp

theorem run_crossed : Run 0 crossed := by
  have cancelled := run_flooded.send (d := 0) (by simp [flooded]) (.cancel "t") (not_hungUp rfl)
  have answered := cancelled.settle [question] (.cancel 0 "t") (.respondOk "t") rfl ⟨rfl, rfl⟩
    (not_hungUp rfl)
  exact answered.settle [] question final rfl ⟨rfl, rfl, rfl⟩ (not_hungUp rfl)

theorem run_shared : Run 0 shared := by
  have subscribed := run_flooded.send (d := 0) (by simp [flooded])
    (.subscribe "s" (.function "g")) (not_hungUp rfl)
  have accepted := subscribed.hear (e := .accepted 1) (by simp) (not_hungUp rfl)
  have connected := accepted.send (d := 1) (by simp [event]) (.connect "l") (not_hungUp rfl)
  have asked := connected.send (d := 1) (by simp [event, send]) otherCall (not_hungUp rfl)
  have answered := asked.settle [question] otherQuestion (.output "t" 0 true .null) rfl
    ⟨rfl, rfl, rfl⟩ (not_hungUp rfl)
  exact answered.settle [] question final rfl ⟨rfl, rfl, rfl⟩ (not_hungUp rfl)

/-! ## Main result -/

/-- While its link stays open, a client is served exactly when what it is offered ends once and no
answer to a cancel comes between a reply that is too large, with more of its stream to follow, and
the end of that stream. What it is offered ends once unless it gets replies to others under the same
id. -/
theorem served_iff_not_crossed {c : ClientId} {x : String} {w : Traffic} (run : Run c w)
    (one : OneExecute c x w) :
    (Served c x w ↔ EndsOnce (offeredTo c x w.offers) ∧ ¬ Crossed (offeredTo c x w.offers)) ∧
      (OwnOnly c x w.offers → EndsOnce (offeredTo c x w.offers)) := by
  have kept := run.kept one
  have cancels := kept.booked.cancels
  unfold Balanced at cancels
  refine ⟨?_, fun own => (kept.streamed own).ends⟩
  rw [← Broker.delivered_iff kept.booked.sorts, ← kept.delivered]
  constructor
  · intro served
    have answered := served.answered
    unfold Balanced at answered
    exact ⟨served.ends, by omega⟩
  · rintro ⟨ends, answered⟩
    refine ⟨ends.endings_le, ends, ?_⟩
    unfold Balanced
    omega

/-- A stream that was withheld and has ended is cancelled without harm. -/
theorem served_iff_not_crossed_settled :
    Run 0 settled ∧ OneExecute 0 "t" settled ∧ OwnOnly 0 "t" settled.offers ∧
      Served 0 "t" settled := by
  have run : Run 0 settled := by
    have ended := run_flooded.settle [] question final rfl ⟨rfl, rfl, rfl⟩ (not_hungUp rfl)
    have cancelled := ended.send (d := 0) (by simp [settle, reply, flooded]) (.cancel "t")
      (not_hungUp rfl)
    exact cancelled.settle [] (.cancel 0 "t") (.respondOk "t") rfl ⟨rfl, rfl⟩ (not_hungUp rfl)
  have one : OneExecute 0 "t" settled := oneExecute_cancelled rfl
  have offers : settled.offers = flooded.offers ++
      [(0, ⟨1, 0, some (.function "f"), final⟩), (0, ⟨1, 0, none, .respondOk "t"⟩)] := rfl
  have own : OwnOnly 0 "t" settled.offers := by simp [OwnOnly, offers, flooded]
  have clear : ¬ Crossed (offeredTo 0 "t" settled.offers) := by
    have offered : offeredTo 0 "t" settled.offers = [flood, final, .respondOk "t"] := rfl
    have last : final.type = .respondExecute ∧ final.isTerminal = true := ⟨rfl, rfl⟩
    have none : ¬ Crossed [] ∧ ¬ Broker.AnswerFirst [] := by simp [Crossed, Broker.AnswerFirst]
    simp [offered, Broker.crossed_cons, Broker.answerFirst_cons, last, none, Broker.opensStream]
  obtain ⟨served, ends⟩ := served_iff_not_crossed run one
  exact ⟨run, one, own, served.2 ⟨ends own, clear⟩⟩

/-- A withheld stream goes on, and ends twice, behind the answer to another client under its id; and
behind the answer to a cancel of it, which is itself not delivered. -/
theorem not_served_crossed :
    (Run 0 shared ∧ OneExecute 0 "t" shared ∧
      deliveredTo 0 "t" shared.effects = [failure, final] ∧ ¬ Served 0 "t" shared) ∧
    Run 0 crossed ∧ OneExecute 0 "t" crossed ∧ OwnOnly 0 "t" crossed.offers ∧
      deliveredTo 0 "t" crossed.effects = [failure, final] ∧ ¬ Served 0 "t" crossed := by
  constructor
  · refine ⟨run_shared, oneExecute_shared, rfl, fun served => ?_⟩
    exact absurd served.once (by decide)
  · have offers : crossed.offers = flooded.offers ++
        [(0, ⟨1, 0, none, .respondOk "t"⟩), (0, ⟨1, 0, some (.function "f"), final⟩)] := rfl
    have own : OwnOnly 0 "t" crossed.offers := by simp [OwnOnly, offers, flooded]
    refine ⟨run_crossed, oneExecute_cancelled rfl, own, rfl, fun served => ?_⟩
    exact absurd served.answered (by unfold Balanced; decide)

end Patchbay.Traffic
