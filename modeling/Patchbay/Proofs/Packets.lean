import Patchbay.Packet

/-!
# What the packets of a reply say

The views of the packets that are built here: whether they are done, whether they report a success
or a failure, and whether they end a transaction.
-/

namespace Patchbay.Packet

variable (tx : String) (sequence : UInt32)

@[simp] theorem output_done (done : Bool) (v : Value) :
    (output tx sequence done v).done = done := by
  simp [output, bare, Packet.done, Fields.find, Value.asBool?]

@[simp] theorem output_status (done : Bool) (v : Value) :
    (output tx sequence done v).status = true := by
  simp [output, bare, status, Value.get?, Value.asMap?, Fields.find, Value.asBool?]

@[simp] theorem output_isTerminal (done : Bool) (v : Value) :
    (output tx sequence done v).isTerminal = done := by
  have type : (output tx sequence done v).type = .respondExecute := rfl
  simp [isTerminal, type]

@[simp] theorem output_failure? (done : Bool) (v : Value) :
    (output tx sequence done v).failure? = none := by
  simp [output, bare, failure?, Remote.ofBody, Value.get?, Value.asMap?, Fields.find, Value.asBool?]

@[simp] theorem output_result? (done : Bool) (v : Value) :
    (output tx sequence done v).result? = some v := by
  simp [output, bare, result?, Value.get?, Value.asMap?, Fields.find, List.lookup_cons]

@[simp] theorem outputFault_done (f : Fault) : (outputFault tx sequence f).done = false := by
  simp [outputFault, bare, Packet.done, Fields.find, Value.asBool?]

theorem get?_status_faultBody (f : Fault) : f.body.get? "status" = some (.bool false) := by
  simp [Fault.body, Value.get?, Value.asMap?, Fields.find]

@[simp] theorem outputFault_status (f : Fault) : (outputFault tx sequence f).status = false := by
  have body : (outputFault tx sequence f).body = f.body := rfl
  simp [status, body, get?_status_faultBody, Value.asBool?]

@[simp] theorem outputFault_failure? (f : Fault) :
    (outputFault tx sequence f).failure? = some ⟨f.code, f.message⟩ := by
  have body : (outputFault tx sequence f).body = f.body := rfl
  simp [failure?, body, Remote.ofBody, get?_status_faultBody, Value.asBool?]
  simp [Fault.body, Value.get?, Value.asMap?, Fields.find, List.lookup_cons, Value.asString?]

@[simp] theorem outputFault_isTerminal (f : Fault) :
    (outputFault tx sequence f).isTerminal = true := by
  have type : (outputFault tx sequence f).type = .respondExecute := rfl
  simp [isTerminal, type]

end Patchbay.Packet
