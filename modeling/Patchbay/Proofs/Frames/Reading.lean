import Patchbay.Socket
import Patchbay.Proofs.Layouts
import Patchbay.Proofs.Queues
import Patchbay.Proofs.Frames.Decoding

/-!
# What a reader gives out

A reader takes a stream in the pieces in which it comes in. It gives out the packets of the frames
at the start of the stream, in order, and no others. It gives out all of them unless the piece in
which the first defect shows completes a valid frame as well: the defect discards the packets of its
piece, so it depends on where a stream is cut whether they come out.
-/

namespace Patchbay

namespace Frame

/-! ## Streams with a defect -/

/-- Behind some valid frames, the stream has a defect. -/
def Broken (stream : Bytes) : Prop := ∃ ps rest v, Begins stream ps rest ∧ Defect rest v

/-- A piece completes the next valid frame of a stream. -/
def Completes (stream piece : Bytes) : Prop :=
  ∃ ps rest frame p more, Leads stream ps rest ∧ Holds frame p ∧ rest ++ piece = frame ++ more

/-- The piece in which the first defect shows completes a valid frame, too. -/
def Shares (pieces : List Bytes) : Prop :=
  ∃ front piece back, pieces = front ++ piece :: back ∧ ¬ Broken front.flatten ∧
    Broken (front.flatten ++ piece) ∧ Completes front.flatten piece

variable {stream rest : Bytes} {ps qs : List Packet}

theorem Broken.append (h : Broken stream) (more : Bytes) : Broken (stream ++ more) := by
  obtain ⟨ps, rest, v, begins, defect⟩ := h
  exact ⟨ps, rest ++ more, v, begins.append more, defect.append more⟩

theorem broken_iff (leads : Leads stream ps rest) : Broken stream ↔ ∃ v, Defect rest v := by
  constructor
  · rintro ⟨qs, tail, v, begins, defect⟩
    have same := Decoder.leads_unique leads ⟨begins, Decoder.unframed_of_defect defect⟩
    obtain ⟨rfl, rfl⟩ := same
    exact ⟨v, defect⟩
  · rintro ⟨v, defect⟩
    exact ⟨ps, rest, v, leads.begins, defect⟩

theorem not_broken_of_incomplete (begins : Begins stream ps rest)
    (none : Decoder.step rest = .incomplete) : ¬ Broken stream := by
  intro broken
  obtain ⟨v, defect⟩ := (broken_iff ⟨begins, Decoder.unframed_of_incomplete none⟩).1 broken
  rw [Decoder.step_of_defect defect] at none
  cases none

/-- The packets of some frames at the start are the first of all that are there. -/
theorem Begins.prefix_of_leads {middle : Bytes} (begins : Begins stream qs middle)
    (leads : Leads stream ps rest) : qs <+: ps := by
  obtain ⟨more, tail, later, -⟩ := Decoder.exists_leads middle
  have whole : Leads stream (qs ++ more) tail := ⟨begins.trans later.begins, later.longest⟩
  obtain ⟨rfl, -⟩ := Decoder.leads_unique leads whole
  exact List.prefix_append qs more

/-- Only one piece brings the first defect. -/
theorem first_broken_unique {front back front' back' : List Bytes} {piece piece' : Bytes}
    (same : front ++ piece :: back = front' ++ piece' :: back')
    (whole : ¬ Broken front.flatten) (broken : Broken (front.flatten ++ piece))
    (whole' : ¬ Broken front'.flatten) (broken' : Broken (front'.flatten ++ piece')) :
    front = front' ∧ piece = piece' := by
  obtain ⟨between, rfl, later⟩ | ⟨between, rfl, later⟩ := List.append_eq_append_iff.1 same
  · cases between with
    | nil =>
      rw [List.nil_append, List.cons.injEq] at later
      exact ⟨(List.append_nil front).symm, later.1⟩
    | cons first between =>
      rw [List.cons_append, List.cons.injEq] at later
      rw [List.flatten_append, List.flatten_cons, ← List.append_assoc, ← later.1] at whole'
      exact absurd (broken.append _) whole'
  · cases between with
    | nil =>
      rw [List.nil_append, List.cons.injEq] at later
      exact ⟨List.append_nil front', later.1.symm⟩
    | cons first between =>
      rw [List.cons_append, List.cons.injEq] at later
      rw [List.flatten_append, List.flatten_cons, ← List.append_assoc, ← later.1] at whole
      exact absurd (broken'.append _) whole

/-! ## Pieces that were fed -/

namespace Decoder

/-- What was fed without a failure is the frames at the start, and the bytes that are kept. -/
theorem begins_of_feedAll {d last : Decoder} {pieces : List Bytes} (settled : d.Settled)
    (fed : d.feedAll pieces = .ok (ps, last)) :
    Begins (d.buffer ++ pieces.flatten) ps last.buffer ∧ last.Settled := by
  rw [feedAll_of_settled settled] at fed
  obtain ⟨qs, rest, leads, ⟨none, ok⟩ | ⟨v, -, failed⟩⟩ := d.feed_cases pieces.flatten
  · rw [ok] at fed
    cases fed
    exact ⟨leads.begins, none⟩
  · rw [failed] at fed
    cases fed

theorem feedAll_append_one {d next last : Decoder} {pieces : List Bytes} {piece : Bytes}
    (fed : d.feedAll pieces = .ok (ps, next)) (fedOne : next.feed piece = .ok (qs, last)) :
    d.feedAll (pieces ++ [piece]) = .ok (ps ++ qs, last) := by
  induction pieces generalizing d ps with
  | nil =>
    cases fed
    simp [feedAll, fedOne, bind, Except.bind, pure, Except.pure]
  | cons first pieces ih =>
    rw [feedAll] at fed
    obtain ⟨⟨rs, middle⟩, one, others⟩ := bind_eq_ok_iff.1 fed
    obtain ⟨⟨ss, final⟩, others, same⟩ := bind_eq_ok_iff.1 others
    cases same
    rw [List.cons_append, feedAll, one, ok_bind]
    simp only [ih others, ok_bind, List.append_assoc]
    rfl

end Decoder

end Frame

namespace Flow

open Patchbay.Frame (Begins Leads Holds Defect Broken Shares Decoder)

/-! ## Readers -/

/-- A reader, the pieces that came in for it and the packets that it gave out. -/
inductive Reading : List Bytes → List Packet → Flow → Prop where
  | start : Reading [] [] .start
  | piece {pieces : List Bytes} {out : List Packet} {f : Flow} (before : Reading pieces out f)
      (writing : f.writing = true) {piece : Bytes} (some : piece ≠ []) :
      Reading (pieces ++ [piece]) out (f.write piece)
  | finish {pieces : List Bytes} {out : List Packet} {f : Flow} (before : Reading pieces out f) :
      Reading pieces out f.finish
  | packets {pieces : List Bytes} {out ps : List Packet} {f next : Flow}
      (before : Reading pieces out f) (read : f.read? = some (.packets ps, next)) :
      Reading pieces (out ++ ps) next
  | ended {pieces : List Bytes} {out : List Packet} {f next : Flow} {reason : Option String}
      (before : Reading pieces out f) (read : f.read? = some (.ended reason, next)) :
      Reading pieces out next

/-- Where a reader stands: it has fed the first of the pieces and the others are on their way, or it
stopped at a piece that failed, or at the end of the stream. -/
inductive Stands (pieces : List Bytes) (out : List Packet) (f : Flow) : Prop where
  | reading (open_ : f.reading = true) {fed : List Bytes}
      (split : pieces = fed ++ f.chunks.toList)
      (gave : Decoder.empty.feedAll fed = .ok (out, f.decoder))
  | failed (stopped : f.reading = false) {fed others : List Bytes} {piece : Bytes} {d : Decoder}
      {v : Violation} (split : pieces = fed ++ piece :: others)
      (gave : Decoder.empty.feedAll fed = .ok (out, d)) (failed : d.feed piece = .error v)
  | finished (stopped : f.reading = false) (ended : f.writing = false) {d : Decoder}
      (gave : Decoder.empty.feedAll pieces = .ok (out, d))

/-- All that a read can come to. -/
inductive ReadMove (f : Flow) : Read → Flow → Prop where
  | packets {piece : Bytes} {rest : Queue Bytes} {ps : List Packet} {d : Decoder}
      (first : f.chunks.toList = piece :: rest.toList) (fed : f.decoder.feed piece = .ok (ps, d)) :
      ReadMove f (.packets ps) { f with chunks := rest, decoder := d }
  | failed {piece : Bytes} {rest : Queue Bytes} {v : Violation}
      (first : f.chunks.toList = piece :: rest.toList) (fed : f.decoder.feed piece = .error v) :
      ReadMove f (.ended (some v.message)) { f.abort with decoder := .empty }
  | finished (none : f.chunks.toList = []) (ended : f.writing = false) (reason : Option String) :
      ReadMove f (.ended reason) f.abort

theorem read_move {f next : Flow} {r : Read} (read : f.read? = some (r, next)) :
    f.reading = true ∧ ReadMove f r next := by
  have open_ : f.reading = true := by
    by_contra stopped
    simp [read?, stopped] at read
  refine ⟨open_, ?_⟩
  simp only [read?, open_, Bool.not_true, Bool.false_eq_true, if_false] at read
  split at read
  · next piece rest popped =>
    have first := Queue.toList_of_pop? popped
    split at read
    · next fed =>
      cases read
      rw [← open_]
      exact .packets first fed
    · next fed =>
      cases read
      exact .failed first fed
  · next popped =>
    split at read
    · cases read
    · next ended =>
      cases read
      exact .finished (Queue.pop?_eq_none_iff.1 popped) (by simpa using ended) _

theorem Reading.stands {pieces : List Bytes} {out : List Packet} {f : Flow}
    (h : Reading pieces out f) : Stands pieces out f := by
  induction h with
  | start =>
    have none : ([] : List Bytes) = [] ++ Flow.start.chunks.toList := rfl
    exact .reading rfl none rfl
  | @piece pieces out f before writing piece some ih =>
    cases ih with
    | reading open_ split gave =>
      refine .reading open_ ?_ gave
      rw [split, write, Queue.toList_push, List.append_assoc]
    | @failed stopped fed others last d v split gave failed =>
      have more : pieces ++ [piece] = fed ++ last :: (others ++ [piece]) := by
        rw [split, List.append_assoc, List.cons_append]
      exact .failed stopped more gave failed
    | finished stopped ended gave => simp [writing] at ended
  | finish before ih =>
    cases ih with
    | reading open_ split gave => exact .reading open_ split gave
    | failed stopped split gave failed => exact .failed stopped split gave failed
    | finished stopped ended gave => exact .finished stopped rfl gave
  | packets before read ih =>
    obtain ⟨open_, move⟩ := read_move read
    cases ih with
    | failed stopped => simp [open_] at stopped
    | finished stopped => simp [open_] at stopped
    | reading _ split gave =>
      cases move with
      | @packets piece rest ps d first fed =>
        refine .reading open_ ?_ (Decoder.feedAll_append_one gave fed)
        rw [split, first, List.append_assoc, List.singleton_append]
  | ended before read ih =>
    obtain ⟨open_, move⟩ := read_move read
    cases ih with
    | failed stopped => simp [open_] at stopped
    | finished stopped => simp [open_] at stopped
    | reading _ split gave =>
      cases move with
      | failed first fed => exact .failed rfl (split.trans (by rw [first])) gave fed
      | finished none ended reason =>
        rw [none, List.append_nil] at split
        exact .finished rfl ended (split ▸ gave)

/-! ## Main result -/

variable {pieces : List Bytes} {out ps : List Packet} {rest : Bytes}

/-- All pieces were fed: everything came out, and there is no defect. -/
theorem out_of_fed {d : Decoder} (leads : Leads pieces.flatten ps rest)
    (gave : Decoder.empty.feedAll pieces = .ok (out, d)) : out = ps ∧ ¬ Shares pieces := by
  obtain ⟨begins, settled⟩ := Decoder.begins_of_feedAll Decoder.settled_empty gave
  have clear : ¬ Broken pieces.flatten := Frame.not_broken_of_incomplete begins settled
  obtain ⟨same, -⟩ :=
    Decoder.leads_unique ⟨begins, Decoder.unframed_of_incomplete settled⟩ leads
  refine ⟨same, ?_⟩
  rintro ⟨front, piece, back, rfl, -, broken, -⟩
  rw [List.flatten_append, List.flatten_cons, ← List.append_assoc] at clear
  exact clear (broken.append _)

/-- A piece failed: what came out is all there is unless that piece completes a frame. -/
theorem out_of_failed {fed others : List Bytes} {piece : Bytes} {d : Decoder} {v : Violation}
    (leads : Leads pieces.flatten ps rest) (split : pieces = fed ++ piece :: others)
    (gave : Decoder.empty.feedAll fed = .ok (out, d)) (failed : d.feed piece = .error v) :
    out = ps ↔ ¬ Shares pieces := by
  obtain ⟨begins, settled⟩ := Decoder.begins_of_feedAll Decoder.settled_empty gave
  have first : Leads fed.flatten out d.buffer :=
    ⟨begins, Decoder.unframed_of_incomplete settled⟩
  obtain ⟨qs, tail, lost, ⟨-, ok⟩ | ⟨w, defect, -⟩⟩ := d.feed_cases piece
  · rw [ok] at failed
    cases failed
  have through : Begins (fed.flatten ++ piece) (out ++ qs) tail :=
    (first.begins.append piece).trans lost.begins
  have broken : Broken (fed.flatten ++ piece) := ⟨_, tail, w, through, defect⟩
  have clear : ¬ Broken fed.flatten := Frame.not_broken_of_incomplete first.begins settled
  -- the packets of the failed piece are those that are missing
  have all : ps = out ++ qs := by
    have whole : Leads pieces.flatten (out ++ qs) (tail ++ others.flatten) := by
      refine ⟨?_, Decoder.unframed_of_defect (defect.append _)⟩
      rw [split, List.flatten_append, List.flatten_cons, ← List.append_assoc]
      exact through.append _
    exact (Decoder.leads_unique leads whole).1
  have missing : out = ps ↔ qs = [] := by rw [all, List.self_eq_append_right]
  have shared : Shares pieces ↔ qs ≠ [] := by
    constructor
    · rintro ⟨front, piece', back, split', clear', broken', completes⟩
      obtain ⟨rfl, rfl⟩ :=
        Frame.first_broken_unique (split.symm.trans split') clear broken clear' broken'
      obtain ⟨_, _, frame, p, more, again, holds, complete⟩ := completes
      obtain ⟨-, rfl⟩ := Decoder.leads_unique first again
      rintro rfl
      have begun := lost.begins
      rw [complete] at begun
      generalize whole : frame ++ more = bytes at begun
      cases begun with
      | nil => exact lost.longest frame p more holds whole.symm
    · intro some
      refine ⟨fed, piece, others, split, clear, broken, out, d.buffer, ?_⟩
      have begun := lost.begins
      generalize d.buffer ++ piece = bytes at begun ⊢
      cases begun with
      | nil => exact absurd rfl some
      | @cons frame p stream ps rest holds later => exact ⟨frame, p, stream, first, holds, rfl⟩
  rw [missing, shared, not_not]

/-- At every moment a reader has given out the packets of the first of the valid frames at the start
of the stream. Once it has nothing to read, it has given out all of them, unless the first defect
shows in a piece that completes one of them. -/
theorem out_eq_leading_iff {f : Flow} (run : Reading pieces out f) :
    ∃ ps rest, Leads pieces.flatten ps rest ∧ out <+: ps ∧
      (f.read? = none → (out = ps ↔ ¬ Shares pieces)) := by
  obtain ⟨ps, rest, leads, -⟩ := Decoder.exists_leads pieces.flatten
  -- what came out are frames at the start of what was fed
  have given {fed others : List Bytes} {d : Decoder} (split : pieces = fed ++ others)
      (gave : Decoder.empty.feedAll fed = .ok (out, d)) : out <+: ps := by
    obtain ⟨begins, -⟩ := Decoder.begins_of_feedAll Decoder.settled_empty gave
    have begun := begins.append others.flatten
    rw [List.append_assoc, ← List.flatten_append, ← split] at begun
    exact begun.prefix_of_leads leads
  refine ⟨ps, rest, leads, ?_, fun quiet => ?_⟩
  · cases run.stands with
    | reading open_ split gave => exact given split gave
    | failed stopped split gave failed => exact given split gave
    | finished stopped ended gave => exact given (List.append_nil pieces).symm gave
  · cases run.stands with
    | failed stopped split gave failed => exact out_of_failed leads split gave failed
    | finished stopped ended gave =>
      obtain ⟨same, clear⟩ := out_of_fed leads gave
      exact iff_of_true same clear
    | reading open_ split gave =>
      have none : f.chunks.toList = [] := by
        unfold read? at quiet
        cases popped : f.chunks.pop? with
        | none => exact Queue.pop?_eq_none_iff.1 popped
        | some entry =>
          exfalso
          simp only [open_, popped, Bool.not_true, Bool.false_eq_true, if_false] at quiet
          split at quiet <;> cases quiet
      rw [none, List.append_nil] at split
      subst split
      obtain ⟨same, clear⟩ := out_of_fed leads gave
      exact iff_of_true same clear

/-! ## One stream in two pieces and in one -/

/-- A packet that opens a connection. -/
def greeting : Packet := .connect "c"

def greetingFrame : Bytes := Frame.wrap Frame.packetType greeting.layout

/-- A frame of no length. -/
def emptyFrame : Bytes := Bytes.littleEndian 4 0

theorem holds_greetingFrame : Holds greetingFrame greeting := by
  have distinct : greeting.KeysDistinct := by
    constructor <;> simp [greeting, Packet.connect, Packet.bare, Value.KeysDistinct,
      Value.KeysDistinctEntries]
  have decodes : Packet.decode greeting.layout = .ok greeting := by
    rw [Packet.decode_layout ⟨by decide, by decide, by decide⟩ distinct, if_pos (by decide),
      if_pos (by decide)]
    rfl
  exact .packet (by decide) decodes

theorem defect_emptyFrame : Defect emptyFrame (.frame .zeroLength) := by
  have defect := Defect.zero []
  rwa [List.append_nil] at defect

theorem feed_greetingFrame : Decoder.empty.feed greetingFrame = .ok ([greeting], .empty) := by
  have begins : Begins (Decoder.empty.buffer ++ greetingFrame) [greeting] [] := by
    have frame := Begins.cons holds_greetingFrame (.nil [])
    rwa [List.append_nil] at frame
  exact Decoder.feed_of_incomplete begins Decoder.settled_empty

theorem feed_emptyFrame : Decoder.empty.feed emptyFrame = .error (.frame .zeroLength) :=
  Decoder.feed_of_defect (.nil _) defect_emptyFrame

theorem leads_greetingFrame : Leads (greetingFrame ++ emptyFrame) [greeting] emptyFrame :=
  ⟨.cons holds_greetingFrame (.nil _), Decoder.unframed_of_defect defect_emptyFrame⟩

theorem read?_of_fed {f : Flow} {piece : Bytes} {rest : Queue Bytes} {ps : List Packet}
    {d : Decoder} (open_ : f.reading = true) (first : f.chunks.pop? = some (piece, rest))
    (fed : f.decoder.feed piece = .ok (ps, d)) :
    f.read? = some (.packets ps, { f with chunks := rest, decoder := d }) := by
  simp [read?, open_, first, fed]

theorem read?_of_failed {f : Flow} {piece : Bytes} {rest : Queue Bytes} {v : Violation}
    (open_ : f.reading = true) (first : f.chunks.pop? = some (piece, rest))
    (failed : f.decoder.feed piece = .error v) :
    f.read? = some (.ended (some v.message), { f.abort with decoder := .empty }) := by
  simp [read?, open_, first, failed]

/-- A reader that got the two frames one after the other. -/
theorem reading_apart :
    ∃ f, Reading [greetingFrame, emptyFrame] [greeting] f ∧ f.read? = none := by
  have first : Reading [greetingFrame] [] _ := .piece .start rfl (by decide)
  have one := first.packets (read?_of_fed rfl rfl feed_greetingFrame)
  have nonempty : emptyFrame ≠ [] := by decide
  have second := one.piece rfl nonempty
  have both := second.ended (read?_of_failed rfl rfl feed_emptyFrame)
  exact ⟨_, both, rfl⟩

/-- A valid frame comes out when the defect behind it comes in a piece of its own. -/
theorem out_eq_leading_iff_apart :
    ∃ f, Reading [greetingFrame, emptyFrame] [greeting] f ∧ f.read? = none ∧
      Leads (greetingFrame ++ emptyFrame) [greeting] emptyFrame ∧
      ¬ Shares [greetingFrame, emptyFrame] := by
  obtain ⟨f, run, quiet⟩ := reading_apart
  refine ⟨f, run, quiet, leads_greetingFrame, ?_⟩
  obtain ⟨ps, rest, leads, -, all⟩ := out_eq_leading_iff run
  have same := (Decoder.leads_unique leads leads_greetingFrame).1
  exact (all quiet).1 same.symm

/-- The same stream in one piece: nothing of it comes out, though in two pieces its valid frame
does. -/
theorem not_out_eq_leading :
    Leads (greetingFrame ++ emptyFrame) [greeting] emptyFrame ∧
      (∃ f, Reading [greetingFrame ++ emptyFrame] [] f ∧ f.read? = none) ∧
      ∃ f, Reading [greetingFrame, emptyFrame] [greeting] f ∧ f.read? = none := by
  have whole : Reading [greetingFrame ++ emptyFrame] [] _ := .piece .start rfl (by decide)
  have failed : Decoder.empty.feed (greetingFrame ++ emptyFrame) = .error (.frame .zeroLength) :=
    Decoder.feed_of_defect leads_greetingFrame.begins defect_emptyFrame
  have ended := whole.ended (read?_of_failed rfl rfl failed)
  exact ⟨leads_greetingFrame, ⟨_, ended, rfl⟩, reading_apart⟩

end Flow

end Patchbay
