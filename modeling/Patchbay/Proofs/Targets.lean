import Patchbay.Proofs.Broker.Checking
import Patchbay.Proofs.Layouts

/-!
# Targets on their way

A target that is written into headers is read back from them, whatever they held before, and no other
header is touched. So a packet that is made for a target is valid, comes out of its layout as it was,
and is passed by the broker as a packet for that target.
-/

namespace Patchbay

/-! ## Fields -/

namespace Fields

variable {key : String}

theorem find_cons (k : String) (w : Value) (rest : Fields) (key : String) :
    find ((k, w) :: rest) key = if k = key then some w else rest.find key := by
  rw [find, List.lookup_cons]
  by_cases same : k = key
  · simp [same]
  · rw [if_neg same, beq_false_of_ne (Ne.symm same)]
    rfl

/-- Writing under a key changes what is found under it, and nothing else. -/
theorem find_set (fields : Fields) (key other : String) (v : Value) :
    (fields.set key v).find other = if key = other then some v else fields.find other := by
  induction fields with
  | nil => exact find_cons key v [] other
  | cons entry rest ih =>
    obtain ⟨k, w⟩ := entry
    rw [set]
    split
    · next same =>
      subst same
      rw [find_cons, find_cons]
      split <;> rfl
    · next apart =>
      rw [find_cons, find_cons, ih]
      by_cases here : k = other
      · rw [if_pos here, if_pos here, if_neg fun same => apart (here.trans same.symm)]
      · rw [if_neg here, if_neg here]

/-- Entries that do not count the key are left with their values and in their order. -/
theorem filter_set (fields : Fields) (v : Value) (counts : String → Bool)
    (out : counts key = false) :
    (fields.set key v).filter (fun entry => counts entry.1) =
      fields.filter fun entry => counts entry.1 := by
  induction fields with
  | nil => simp [set, out]
  | cons entry rest ih =>
    obtain ⟨k, w⟩ := entry
    rw [set]
    split
    · next same =>
      subst same
      simp [out]
    · rw [List.filter_cons, List.filter_cons, ih]

end Fields

/-! ## Headers -/

namespace Target

/-- The headers that name a target. -/
def headerNames : Target → List String
  | function _ => [Header.function]
  | componentType _ => [Header.type]
  | component _ => [Header.component]
  | method .. => [Header.component, Header.method]

theorem headerText_set (headers : Fields) (key text : String) :
    headerText (headers.set key (.string text)) key = .ok text := by
  rw [headerText, Fields.find_set, if_pos rfl]
  rfl

theorem headerText_set_other (headers : Fields) {key other : String} (apart : key ≠ other)
    (v : Value) : headerText (headers.set key v) other = headerText headers other := by
  rw [headerText, headerText, Fields.find_set, if_neg apart]

theorem ofHeaders_writeHeaders (t : Target) (headers : Fields) :
    ofHeaders (t.writeHeaders headers) t.instruction = .ok t := by
  cases t with
  | function | componentType | component =>
    simp only [writeHeaders, instruction, ofHeaders, headerText_set, ok_bind]
    rfl
  | method =>
    have apart : Header.method ≠ Header.component := by decide
    simp only [writeHeaders, instruction, ofHeaders, headerText_set, ok_bind,
      headerText_set_other _ apart]
    rfl

theorem filter_writeHeaders (t : Target) (headers : Fields) :
    (t.writeHeaders headers).filter (fun entry => entry.1 ∉ t.headerNames) =
      headers.filter fun entry => entry.1 ∉ t.headerNames := by
  have set (headers : Fields) {key : String} (v : Value) (named : key ∈ t.headerNames) :
      (headers.set key v).filter (fun entry => entry.1 ∉ t.headerNames) =
        headers.filter fun entry => entry.1 ∉ t.headerNames :=
    Fields.filter_set headers v (fun name => decide (name ∉ t.headerNames)) (by simpa using named)
  cases t with
  | function | componentType | component => exact set headers _ (by simp [headerNames])
  | method =>
    exact (set _ _ (by simp [headerNames])).trans (set headers _ (by simp [headerNames]))

end Target

/-! ## Packets for a target -/

namespace Packet

/-- A packet that a client makes for a target. -/
inductive Request (tx : String) : Target → Packet → Prop where
  | subscribe (t : Target) : Request tx t (.subscribe tx t)
  | unsubscribe (t : Target) : Request tx t (.unsubscribe tx t)
  | execute (t : Target) {args : Value} (distinct : args.KeysDistinct) (shallow : args.depth ≤ 1022) :
      Request tx t (.execute tx t args)
  | callFunction (name : String) {args : Value} (distinct : args.KeysDistinct)
      (shallow : args.depth ≤ 1022) : Request tx (.function name) (.callFunction tx name args)
  | defineComponent (type name : String) {args : Value} (distinct : args.KeysDistinct)
      (shallow : args.depth ≤ 1022) :
      Request tx (.componentType type) (.defineComponent tx type name args)
  | deleteComponent (name : String) : Request tx (.component name) (.deleteComponent tx name)
  | callMethod (component method : String) {args : Value} (distinct : args.KeysDistinct)
      (shallow : args.depth ≤ 1022) :
      Request tx (.method component method) (.callMethod tx component method args)

variable {tx : String} {t : Target} {p : Packet}

/-- What these packets have in common. -/
structure Routed (tx : String) (t : Target) (p : Packet) : Prop where
  id : p.tx = tx
  type : p.type.carriesInstruction = true
  instruction : p.instruction = some t.instruction
  sequence : p.sequence = none
  headers : p.headers = t.writeHeaders []
  distinct : p.body.KeysDistinct
  shallow : p.body.depth ≤ 1023

theorem Request.routed (request : Request tx t p) : Routed tx t p := by
  have nothing : (Value.map []).KeysDistinct ∧ (Value.map []).depth ≤ 1023 := by
    simp [Value.KeysDistinct, Value.KeysDistinctEntries, Value.depth, Value.depthEntries]
  have argued {args : Value} (distinct : args.KeysDistinct) (shallow : args.depth ≤ 1022) :
      (Value.map [("args", args)]).KeysDistinct ∧ (Value.map [("args", args)]).depth ≤ 1023 := by
    refine ⟨by simp [Value.KeysDistinct, Value.KeysDistinctEntries, distinct], ?_⟩
    simp only [Value.depth, Value.depthEntries]
    omega
  have named (name : String) {args : Value} (distinct : args.KeysDistinct)
      (shallow : args.depth ≤ 1022) :
      (Value.map [("name", .string name), ("args", args)]).KeysDistinct ∧
        (Value.map [("name", .string name), ("args", args)]).depth ≤ 1023 := by
    refine ⟨by simp [Value.KeysDistinct, Value.KeysDistinctEntries, distinct], ?_⟩
    simp only [Value.depth, Value.depthEntries]
    omega
  cases request with
  | subscribe | unsubscribe | deleteComponent =>
    exact ⟨rfl, rfl, rfl, rfl, rfl, nothing.1, nothing.2⟩
  | execute _ distinct shallow | callFunction _ distinct shallow | callMethod _ _ distinct shallow =>
    exact ⟨rfl, rfl, rfl, rfl, rfl, (argued distinct shallow).1, (argued distinct shallow).2⟩
  | defineComponent type name distinct shallow =>
    exact ⟨rfl, rfl, rfl, rfl, rfl, (named name distinct shallow).1, (named name distinct shallow).2⟩

namespace Routed

theorem valid (routed : Routed tx t p) : p.validate = .ok () := by
  have carries := routed.type
  rw [validate, routed.instruction, routed.sequence, carries]
  cases type : p.type with
  | respondExecute => simp [type, PacketType.carriesInstruction] at carries
  | _ => rfl

theorem target (routed : Routed tx t p) : p.target = .ok t := by
  rw [Packet.target, routed.instruction, routed.headers]
  exact t.ofHeaders_writeHeaders []

theorem check (routed : Routed tx t p) : Broker.check true p = .ok (some t) :=
  Broker.check_of_checked routed.valid (.targeted routed.type routed.target)

/-- Between one and two headers, none of them twice. -/
theorem header_fields (t : Target) :
    (Value.map (t.writeHeaders [])).KeysDistinct ∧ (Value.map (t.writeHeaders [])).depth ≤ 1023 := by
  cases t with
  | function | componentType | component =>
    simp [Target.writeHeaders, Fields.set, Value.KeysDistinct, Value.KeysDistinctEntries,
      Value.depth, Value.depthEntries]
  | method =>
    simp [Target.writeHeaders, Fields.set, Header.component, Header.method, Value.KeysDistinct,
      Value.KeysDistinctEntries, Value.depth, Value.depthEntries]

theorem encode_isSome_iff (routed : Routed tx t p) (id : (Bytes.ofText tx).length ≤ 65535) :
    (∃ bytes, p.encode = .ok bytes) ↔
      (MessagePack.encode (.map p.headers)).length ≤ 4294967295 ∧
        (MessagePack.encode p.body).length ≤ 4294967295 := by
  constructor
  · rintro ⟨bytes, written⟩
    by_contra long
    obtain ⟨what, size, limit, failed⟩ := encode_of_not_fits (p := p)
      fun fits => long ⟨fits.headers, fits.body⟩
    rw [written] at failed
    cases failed
  · rintro ⟨headers, body⟩
    exact ⟨p.layout, encode_of_fits ⟨routed.id ▸ id, headers, body⟩⟩

theorem decode_of_encode (routed : Routed tx t p) {bytes : Bytes} (written : p.encode = .ok bytes) :
    decode bytes = .ok p := by
  have fits : p.Fits := by
    by_contra long
    obtain ⟨what, size, limit, failed⟩ := encode_of_not_fits long
    rw [written] at failed
    cases failed
  obtain ⟨distinct, shallow⟩ := header_fields t
  rw [← routed.headers] at distinct shallow
  rw [encode_of_fits fits] at written
  cases written
  rw [decode_layout fits ⟨distinct, routed.distinct⟩, if_pos shallow, if_pos routed.shallow,
    routed.valid]
  rfl

end Routed

/-! ## Main result -/

/-- The target that is written into headers is the one that is read from them, and the others stay as
they are. A packet that a client makes for a target is valid and passes the broker's check as one for
that target. It has a layout unless headers or body are too long for one, and comes out of it as it
was. -/
theorem request_names_target :
    (∀ (t : Target) (headers : Fields),
      Target.ofHeaders (t.writeHeaders headers) t.instruction = .ok t ∧
        (t.writeHeaders headers).filter (fun entry => entry.1 ∉ t.headerNames) =
          headers.filter fun entry => entry.1 ∉ t.headerNames) ∧
    ∀ (tx : String) (t : Target) (p : Packet), tx.utf8ByteSize ≤ 65535 → Request tx t p →
      p.validate = .ok () ∧ p.target = .ok t ∧ Broker.check true p = .ok (some t) ∧
      ((∃ bytes, p.encode = .ok bytes) ↔
        (MessagePack.encode (.map p.headers)).length < 2 ^ 32 ∧
          (MessagePack.encode p.body).length < 2 ^ 32) ∧
      ∀ bytes, p.encode = .ok bytes → decode bytes = .ok p := by
  refine ⟨fun t headers => ⟨t.ofHeaders_writeHeaders headers, t.filter_writeHeaders headers⟩, ?_⟩
  intro tx t p id request
  have routed := request.routed
  have size : (Bytes.ofText tx).length = tx.utf8ByteSize := Array.length_toList
  refine ⟨routed.valid, routed.target, routed.check, ?_, fun bytes => routed.decode_of_encode⟩
  rw [routed.encode_isSome_iff (size ▸ id)]
  simp only [Nat.lt_iff_le_pred (Nat.two_pow_pos 32)]

/-- An array of one item has a head of one byte. -/
theorem length_encode_nest (n : Nat) (v : Value) :
    (MessagePack.encode (.nest n v)).length = n + (MessagePack.encode v).length := by
  induction n with
  | zero => exact (Nat.zero_add _).symm
  | succ n ih =>
    have head : ((MessagePack.Head.array 1).put).length = 1 := rfl
    change (MessagePack.encode (.array [.nest n v])).length = _
    rw [MessagePack.encode_array, MessagePack.encodeItems_cons, List.length_append,
      List.length_append, ih]
    simp only [List.length_singleton, head, MessagePack.encodeItems, List.flatMap_nil,
      List.length_nil]
    omega

/-- A method and a component of one name: headers that name another component are written over, and
the arguments nest as deep as they may. -/
theorem request_names_target_method :
    Target.writeHeaders [("component", .int 1), ("trace", .null), ("method", .string "b")]
        (.method "a" "a") =
      [("component", .string "a"), ("trace", .null), ("method", .string "a")] ∧
    Target.ofHeaders
        (Target.writeHeaders [("component", .int 1), ("trace", .null), ("method", .string "b")]
          (.method "a" "a")) .callMethod = .ok (.method "a" "a") ∧
    ∃ bytes, (callMethod "t" "a" "a" (.nest 1022 .null)).encode = .ok bytes ∧
      decode bytes = .ok (callMethod "t" "a" "a" (.nest 1022 .null)) ∧
      Broker.check true (callMethod "t" "a" "a" (.nest 1022 .null)) =
        .ok (some (.method "a" "a")) := by
  have request : Request "t" (.method "a" "a") (callMethod "t" "a" "a" (.nest 1022 .null)) :=
    .callMethod "a" "a" (Value.nest_keysDistinct trivial) (by rw [Value.nest_depth]; decide)
  obtain ⟨-, -, passes, written, read⟩ := request_names_target.2 _ _ _ (by decide) request
  have body : (MessagePack.encode (.map [("args", .nest 1022 .null)])).length < 2 ^ 32 := by
    rw [MessagePack.encode_map, MessagePack.encodeEntries_cons, List.length_append,
      List.length_append, List.length_append, length_encode_nest]
    decide
  obtain ⟨bytes, layout⟩ := written.2 ⟨by rw [request.routed.headers]; decide, body⟩
  exact ⟨rfl, (request_names_target.1 _ _).1, bytes, layout, read bytes layout, passes⟩

end Packet

end Patchbay
