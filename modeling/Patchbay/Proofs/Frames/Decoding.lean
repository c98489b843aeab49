import Patchbay.Frame
import Patchbay.Proofs.Bytes

/-!
# Streams of frames

What stands at the start of a stream: a whole frame that holds a packet, bytes that can become no
such frame whatever follows, or neither yet. The decoder sees exactly this, and what it sees does
not change when more of the stream comes in. So it does not matter to it in what pieces a stream is
fed: the packets, the bytes it keeps and the reason why it fails are those of the stream as a whole.
-/

namespace Patchbay

namespace Frame

/-! ## What stands at the start of a stream -/

/-- The frame of a payload, behind its announced length. -/
def wrap (type : UInt8) (payload : Bytes) : Bytes :=
  Bytes.littleEndian 4 (payload.length + 1) ++ type :: payload

/-- A complete, valid frame and its packet. -/
inductive Holds : Bytes → Packet → Prop where
  | packet {payload : Bytes} {p : Packet} (fits : payload.length + 1 ≤ limit)
      (decodes : Packet.decode payload = .ok p) : Holds (wrap packetType payload) p

/-- A stream that starts with a defect: a length that no frame has, or a complete frame without a
packet. -/
inductive Defect : Bytes → Violation → Prop where
  | zero (rest : Bytes) : Defect (Bytes.littleEndian 4 0 ++ rest) (.frame .zeroLength)
  | large {length : Nat} (large : limit < length) (word : length < 256 ^ 4) (rest : Bytes) :
      Defect (Bytes.littleEndian 4 length ++ rest) (.frame (.tooLarge length limit))
  | foreign {type : UInt8} {payload : Bytes} (fits : payload.length + 1 ≤ limit)
      (other : type ≠ packetType) (rest : Bytes) :
      Defect (wrap type payload ++ rest) (.frame (.unknownType type))
  | packet {payload : Bytes} {v : Violation} (fits : payload.length + 1 ≤ limit)
      (broken : Packet.decode payload = .error v) (rest : Bytes) :
      Defect (wrap packetType payload ++ rest) v

/-- Fewer bytes than a length takes; or a length that a frame can have, and fewer bytes behind it than it
announces. -/
def Unfilled (bytes : Bytes) : Prop :=
  bytes.length < 4 ∨
    ∃ length rest, 1 ≤ length ∧ length ≤ limit ∧ bytes = Bytes.littleEndian 4 length ++ rest ∧
      bytes.length < 4 + length

/-- More of the stream does not mend a defect. -/
theorem Defect.append {bytes : Bytes} {v : Violation} (h : Defect bytes v) (more : Bytes) :
    Defect (bytes ++ more) v := by
  cases h with
  | zero rest =>
    rw [List.append_assoc]
    exact .zero _
  | large large word rest =>
    rw [List.append_assoc]
    exact .large large word _
  | foreign fits other rest =>
    rw [List.append_assoc]
    exact .foreign fits other _
  | packet fits broken rest =>
    rw [List.append_assoc]
    exact .packet fits broken _

theorem wrap_length (type : UInt8) (payload : Bytes) :
    (wrap type payload).length = payload.length + 5 := by
  simp only [wrap, List.length_append, Bytes.length_littleEndian, List.length_cons]
  omega

theorem Holds.length_pos {frame : Bytes} {p : Packet} (h : Holds frame p) : 0 < frame.length := by
  cases h with
  | packet fits decodes =>
    rw [wrap_length]
    omega

namespace Decoder

theorem step_of_short {bytes : Bytes} (short : bytes.length < 4) : step bytes = .incomplete := by
  rw [step, Bytes.split?_eq_none_iff.2 short]

/-- The first frame is looked at behind the four bytes of its length. -/
theorem step_announced {length : Nat} (word : length < 256 ^ 4) (rest : Bytes) :
    step (Bytes.littleEndian 4 length ++ rest) =
      if length = 0 then .violation (.frame .zeroLength)
      else if limit < length then .violation (.frame (.tooLarge length limit))
      else match Bytes.split? length rest with
        | none => .incomplete
        | some (body, rest) =>
          match ofBody body with
          | .ok p => .packet p rest
          | .error v => .violation v := by
  rw [step, Bytes.split?_append (Bytes.length_littleEndian 4 length)]
  dsimp only
  exact (Bytes.ofLittleEndian_littleEndian word).symm ▸ rfl

theorem step_wrap {payload : Bytes} (fits : payload.length + 1 ≤ limit) (type : UInt8)
    (rest : Bytes) :
    step (wrap type payload ++ rest) =
      match ofBody (type :: payload) with
      | .ok p => .packet p rest
      | .error v => .violation v := by
  have small : limit < 256 ^ 4 := by decide
  have body : Bytes.split? (payload.length + 1) (type :: payload ++ rest) =
      some (type :: payload, rest) := Bytes.split?_append List.length_cons rest
  rw [wrap, List.append_assoc, step_announced (by omega), if_neg (by omega), if_neg (by omega),
    body]

theorem step_of_holds {frame : Bytes} {p : Packet} (h : Holds frame p) (rest : Bytes) :
    step (frame ++ rest) = .packet p rest := by
  cases h with
  | packet fits decodes =>
    rw [step_wrap fits]
    simp [ofBody, decodes]

theorem step_of_defect {bytes : Bytes} {v : Violation} (h : Defect bytes v) :
    step bytes = .violation v := by
  cases h with
  | zero rest => rw [step_announced (by decide), if_pos rfl]
  | large large word rest => rw [step_announced word, if_neg (by omega), if_pos large]
  | foreign fits other rest =>
    rw [step_wrap fits]
    simp [ofBody, other]
  | packet fits broken rest =>
    rw [step_wrap fits]
    simp [ofBody, broken]

theorem step_of_unfilled {bytes : Bytes} (h : Unfilled bytes) : step bytes = .incomplete := by
  have word : limit < 256 ^ 4 := by decide
  obtain short | ⟨length, rest, some, fits, rfl, missing⟩ := h
  · exact step_of_short short
  · rw [List.length_append, Bytes.length_littleEndian] at missing
    rw [step_announced (by omega), if_neg (by omega), if_neg (by omega),
      Bytes.split?_eq_none_iff.2 (by omega)]

/-- All that the decoder can see. -/
theorem step_cases (bytes : Bytes) :
    (∃ frame p rest, bytes = frame ++ rest ∧ Holds frame p) ∨ (∃ v, Defect bytes v) ∨
      Unfilled bytes := by
  cases front : Bytes.split? 4 bytes with
  | none => exact .inr (.inr (.inl (Bytes.split?_eq_none_iff.1 front)))
  | some parts =>
    obtain ⟨announced, rest⟩ := parts
    obtain ⟨rfl, width⟩ := Bytes.split?_eq_some_iff.1 front
    -- the four bytes are the form of some length
    obtain ⟨length, word, rfl⟩ : ∃ length, length < 256 ^ 4 ∧
        announced = Bytes.littleEndian 4 length := by
      refine ⟨Bytes.ofLittleEndian announced, width ▸ Bytes.ofLittleEndian_lt announced, ?_⟩
      rw [← width, Bytes.littleEndian_ofLittleEndian]
    by_cases zero : length = 0
    · subst zero
      exact .inr (.inl ⟨_, .zero rest⟩)
    by_cases large : limit < length
    · exact .inr (.inl ⟨_, .large large word rest⟩)
    cases complete : Bytes.split? length rest with
    | none =>
      have missing := Bytes.split?_eq_none_iff.1 complete
      refine .inr (.inr (.inr ⟨length, rest, by omega, by omega, rfl, ?_⟩))
      rw [List.length_append, Bytes.length_littleEndian]
      omega
    | some parts =>
      obtain ⟨body, rest⟩ := parts
      obtain ⟨rfl, size⟩ := Bytes.split?_eq_some_iff.1 complete
      cases body with
      | nil => exact absurd size.symm zero
      | cons type payload =>
        rw [List.length_cons] at size
        have fits : payload.length + 1 ≤ limit := by omega
        have shape : Bytes.littleEndian 4 length ++ (type :: payload ++ rest) =
            wrap type payload ++ rest := by
          rw [wrap, size, List.append_assoc]
        rw [shape]
        by_cases own : type = packetType
        · subst own
          cases decodes : Packet.decode payload with
          | ok p => exact .inl ⟨_, p, rest, rfl, .packet fits decodes⟩
          | error v => exact .inr (.inl ⟨v, .packet fits decodes rest⟩)
        · exact .inr (.inl ⟨_, .foreign fits own rest⟩)

theorem unfilled_of_incomplete {bytes : Bytes} (stopped : step bytes = .incomplete) :
    Unfilled bytes := by
  obtain ⟨frame, p, rest, rfl, holds⟩ | ⟨v, defect⟩ | unfilled := step_cases bytes
  · rw [step_of_holds holds] at stopped
    cases stopped
  · rw [step_of_defect defect] at stopped
    cases stopped
  · exact unfilled

end Decoder

/-! ## The frames at the start of a stream -/

/-- A stream starts with the frames of some packets; what is behind them. -/
inductive Begins : Bytes → List Packet → Bytes → Prop where
  | nil (rest : Bytes) : Begins rest [] rest
  | cons {frame : Bytes} {p : Packet} {stream : Bytes} {ps : List Packet} {rest : Bytes}
      (first : Holds frame p) (others : Begins stream ps rest) :
      Begins (frame ++ stream) (p :: ps) rest

/-- No complete, valid frame stands at the start of a stream. -/
def Unframed (stream : Bytes) : Prop := ∀ frame p more, Holds frame p → stream ≠ frame ++ more

/-- The longest run of complete, valid frames at the start of a stream, and what is behind it. -/
structure Leads (stream : Bytes) (ps : List Packet) (rest : Bytes) : Prop where
  begins : Begins stream ps rest
  longest : Unframed rest

namespace Begins

variable {stream middle rest : Bytes} {ps qs : List Packet}

theorem trans (first : Begins stream ps middle) (second : Begins middle qs rest) :
    Begins stream (ps ++ qs) rest := by
  induction first with
  | nil => exact second
  | cons frame _ ih => exact .cons frame (ih second)

/-- The frames of a stream stay when more of it comes in. -/
theorem append (h : Begins stream ps rest) (more : Bytes) :
    Begins (stream ++ more) ps (rest ++ more) := by
  induction h with
  | nil => exact .nil _
  | cons frame _ ih =>
    rw [List.append_assoc]
    exact .cons frame ih

/-- Every frame takes at least one byte. -/
theorem length_le (h : Begins stream ps rest) : ps.length ≤ stream.length := by
  induction h with
  | nil => exact Nat.zero_le _
  | cons first _ ih =>
    have some := first.length_pos
    rw [List.length_cons, List.length_append]
    omega

end Begins

namespace Decoder

theorem unframed_of_incomplete {stream : Bytes} (none : step stream = .incomplete) :
    Unframed stream := by
  rintro frame p more holds rfl
  rw [step_of_holds holds] at none
  cases none

theorem unframed_of_defect {stream : Bytes} {v : Violation} (defect : Defect stream v) :
    Unframed stream := by
  rintro frame p more holds rfl
  have broken := step_of_defect defect
  rw [step_of_holds holds] at broken
  cases broken

/-- A stream has only one longest run of frames: the decoder finds them one after the other. -/
theorem leads_unique {stream : Bytes} {ps qs : List Packet} {rest tail : Bytes}
    (h : Leads stream ps rest) (k : Leads stream qs tail) : ps = qs ∧ rest = tail := by
  obtain ⟨begins, longest⟩ := h
  induction begins generalizing qs with
  | nil stream =>
    cases k.begins with
    | nil => exact ⟨rfl, rfl⟩
    | cons first others => exact absurd rfl (longest _ _ _ first)
  | @cons frame p stream ps rest first others ih =>
    obtain ⟨begins, stops⟩ := k
    generalize whole : frame ++ stream = both at begins
    cases begins with
    | nil => exact absurd whole.symm (stops _ _ _ first)
    | @cons other q more qs tail second later =>
      have same : Step.packet p stream = .packet q more := by
        rw [← step_of_holds first, ← step_of_holds second, whole]
      cases same
      obtain ⟨rfl, rfl⟩ := ih ⟨later, stops⟩ longest
      exact ⟨rfl, rfl⟩

/-- Every stream has a longest run of frames, with a defect or an incomplete frame behind it. -/
theorem exists_leads (stream : Bytes) :
    ∃ ps rest, Leads stream ps rest ∧ ((∃ v, Defect rest v) ∨ step rest = .incomplete) := by
  -- by induction on the length, as every frame takes some bytes
  induction size : stream.length using Nat.strong_induction_on generalizing stream with
  | _ n ih =>
    obtain ⟨frame, p, more, rfl, holds⟩ | ⟨v, defect⟩ | unfilled := step_cases stream
    · have shorter : more.length < n := by
        have some := holds.length_pos
        rw [List.length_append] at size
        omega
      obtain ⟨ps, rest, leads, behind⟩ := ih more.length shorter more rfl
      exact ⟨p :: ps, rest, ⟨.cons holds leads.begins, leads.longest⟩, behind⟩
    · exact ⟨[], stream, ⟨.nil stream, unframed_of_defect defect⟩, .inl ⟨v, defect⟩⟩
    · have none := step_of_unfilled unfilled
      exact ⟨[], stream, ⟨.nil stream, unframed_of_incomplete none⟩, .inr none⟩

/-! ## Feeding -/

/-- A decoder that has given out every complete frame it was fed. -/
def Settled (d : Decoder) : Prop := step d.buffer = .incomplete

theorem settled_empty : empty.Settled := step_of_short (by decide)

/-- The decoder goes through the frames one by one. -/
theorem run_begins {stream rest : Bytes} {ps : List Packet} (begins : Begins stream ps rest)
    (fuel : Nat) (found : List Packet) :
    run (ps.length + fuel) found stream = run fuel (ps.reverse ++ found) rest := by
  induction begins generalizing found with
  | nil rest => simp
  | @cons frame p stream ps rest first others ih =>
    have fuel_succ : (p :: ps).length + fuel = ps.length + fuel + 1 := by
      rw [List.length_cons]
      omega
    rw [fuel_succ, run, step_of_holds first]
    simp only [ih, List.reverse_cons, List.append_assoc, List.singleton_append]

/-- Feeding goes on behind the frames, and still has fuel there. -/
theorem feed_begins {d : Decoder} {chunk rest : Bytes} {ps : List Packet}
    (begins : Begins (d.buffer ++ chunk) ps rest) :
    ∃ fuel, d.feed chunk = run (fuel + 1) ps.reverse rest := by
  have few := begins.length_le
  have enough : (d.buffer ++ chunk).length + 1 =
      ps.length + ((d.buffer ++ chunk).length - ps.length + 1) := by omega
  refine ⟨(d.buffer ++ chunk).length - ps.length, ?_⟩
  rw [feed, enough, run_begins begins, List.append_nil]

theorem feed_of_incomplete {d : Decoder} {chunk rest : Bytes} {ps : List Packet}
    (begins : Begins (d.buffer ++ chunk) ps rest) (none : step rest = .incomplete) :
    d.feed chunk = .ok (ps, ⟨rest⟩) := by
  obtain ⟨fuel, same⟩ := feed_begins begins
  rw [same, run, none]
  simp

theorem feed_of_defect {d : Decoder} {chunk rest : Bytes} {ps : List Packet} {v : Violation}
    (begins : Begins (d.buffer ++ chunk) ps rest) (defect : Defect rest v) :
    d.feed chunk = .error v := by
  obtain ⟨fuel, same⟩ := feed_begins begins
  rw [same, run, step_of_defect defect]

/-- All that feeding can come to: the packets of the frames, or the first defect behind them. -/
theorem feed_cases (d : Decoder) (chunk : Bytes) :
    ∃ ps rest, Leads (d.buffer ++ chunk) ps rest ∧
      (step rest = .incomplete ∧ d.feed chunk = .ok (ps, ⟨rest⟩) ∨
        ∃ v, Defect rest v ∧ d.feed chunk = .error v) := by
  obtain ⟨ps, rest, leads, ⟨v, defect⟩ | none⟩ := exists_leads (d.buffer ++ chunk)
  · exact ⟨ps, rest, leads, .inr ⟨v, defect, feed_of_defect leads.begins defect⟩⟩
  · exact ⟨ps, rest, leads, .inl ⟨none, feed_of_incomplete leads.begins none⟩⟩

/-- A decoder that was fed without a defect is settled. -/
theorem settled_feed {d next : Decoder} {chunk : Bytes} {ps : List Packet}
    (fed : d.feed chunk = .ok (ps, next)) : next.Settled := by
  obtain ⟨qs, rest, -, ⟨none, ok⟩ | ⟨v, -, failed⟩⟩ := d.feed_cases chunk
  · rw [ok] at fed
    cases fed
    exact none
  · rw [failed] at fed
    cases fed

theorem feed_nil {d : Decoder} (settled : d.Settled) : d.feed [] = .ok ([], d) := by
  have begins : Begins (d.buffer ++ []) [] d.buffer := by
    rw [List.append_nil]
    exact .nil _
  exact feed_of_incomplete begins settled

/-- Feeding two pieces of a stream is feeding them as one. -/
theorem feed_append (d : Decoder) (front back : Bytes) :
    d.feed (front ++ back) = do
      let (ps, next) ← d.feed front
      let (qs, last) ← next.feed back
      return (ps ++ qs, last) := by
  obtain ⟨ps, middle, leads, ⟨-, first⟩ | ⟨v, defect, failed⟩⟩ := d.feed_cases front
  · have begun : Begins (d.buffer ++ (front ++ back)) ps (middle ++ back) := by
      rw [← List.append_assoc]
      exact leads.begins.append back
    rw [first]
    obtain ⟨qs, rest, later, ⟨none, second⟩ | ⟨v, defect, failed⟩⟩ :=
      feed_cases ⟨middle⟩ back
    · rw [feed_of_incomplete (begun.trans later.begins) none]
      simp only [bind, Except.bind, second]
      rfl
    · rw [feed_of_defect (begun.trans later.begins) defect]
      simp only [bind, Except.bind, failed]
  · have begun : Begins (d.buffer ++ (front ++ back)) ps (middle ++ back) := by
      rw [← List.append_assoc]
      exact leads.begins.append back
    rw [feed_of_defect begun (defect.append back), failed]
    rfl

/-- Feeds the pieces of a stream one after the other, up to the first that fails. -/
def feedAll (d : Decoder) : List Bytes → Except Violation (List Packet × Decoder)
  | [] => .ok ([], d)
  | chunk :: chunks => do
    let (ps, next) ← d.feed chunk
    let (qs, last) ← next.feedAll chunks
    return (ps ++ qs, last)

theorem feedAll_of_settled {d : Decoder} (settled : d.Settled) (chunks : List Bytes) :
    d.feedAll chunks = d.feed chunks.flatten := by
  induction chunks generalizing d with
  | nil => exact (feed_nil settled).symm
  | cons chunk chunks ih =>
    rw [feedAll, List.flatten_cons, feed_append]
    cases fed : d.feed chunk with
    | error v => rfl
    | ok out =>
      obtain ⟨ps, next⟩ := out
      have same := ih (settled_feed fed)
      simp only [bind, Except.bind, same]

/-- However a stream is cut, feeding the pieces to a new decoder comes to what feeding the whole
comes to: the same packets and the same bytes kept, or the same failure. -/
theorem feedAll_eq_feed_flatten (chunks : List Bytes) :
    empty.feedAll chunks = empty.feed chunks.flatten :=
  feedAll_of_settled settled_empty chunks

end Decoder

end Frame

end Patchbay
