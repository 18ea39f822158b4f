import NamedSets.Proofs.Message.Received

namespace NamedSets.Message.Report

variable {report : Report} {message : Bytes}

def code? (message : Bytes) : Option Int32 :=
  match Header.read? message with
  | some header =>
      if header.messageType = messageType then
        some (readCode ((message.drop Header.width).take 4))
      else none
  | none => none

theorem code_encode (typed : report.header.messageType = messageType) :
    code? report.encode = some report.code := by
  have width : (encodeCode report.code).length = 4 := Bytes.length_little 4 _
  have code : (report.encode.drop Header.width).take 4 = encodeCode report.code := by
    rw [encode, List.append_assoc, List.append_assoc,
      List.drop_left' report.header.length_encode, List.take_left' width]
  have found : Header.read? report.encode = some report.header := by
    simp only [encode, List.append_assoc, Header.read_encode]
  simp only [code?, found, if_pos typed, code, readCode_encodeCode]

/-- A report whose length fits into its header is read back. -/
theorem readAll_encode (typed : report.header.messageType = messageType)
    (length : report.header.length.toNat = Header.width + 4 + report.echoed.length) :
    Segment.readAll report.encode = .ok [.report report] := by
  have width : (encodeCode report.code).length = 4 := Bytes.length_little 4 _
  have payload : report.header.length.toNat =
      Header.width + (encodeCode report.code ++ report.echoed).length := by
    rw [length, List.length_append, width, Nat.add_assoc]
  rw [encode, List.append_assoc, List.append_assoc, ← List.append_assoc (encodeCode report.code)]
  refine Segment.readAll_padded ?_ payload ?_
  · have long : ¬ (encodeCode report.code ++ report.echoed).length < 4 := by
      rw [List.length_append, width]
      omega
    simp only [Segment.read, if_pos typed, Request.payload_padded payload, if_neg long,
      List.take_left' width, List.drop_left' width, readCode_encodeCode]
  · simp only [List.length_append, width, Bytes.length_padding, Bytes.aligned, Header.width]
    omega

theorem readAll_answer {request : Request} {fault? : Option Fault}
    (fits : Header.width + 4 + (answer request fault?).echoed.length < UInt32.size) :
    Segment.readAll (answer request fault?).encode = .ok [.report (answer request fault?)] :=
  readAll_encode rfl (UInt32.toNat_ofNat_of_lt' fits)

theorem code_finish (draft : Draft) : code? draft.finish = none := by
  have foreign : draft.command.messageType ≠ messageType := by
    cases draft.command <;> decide
  simp only [code?, Draft.finish, List.append_assoc, Header.read_encode, if_neg foreign]

theorem failure_ne_zero (fault : Fault) : failure fault ≠ 0 := by
  have small : fault.code < 5000 := by
    have offset := fault.offset.toNat_lt
    have errno : fault.errno.code ≤ 4352 := by
      cases fault.errno <;> decide
    unfold Fault.code
    omega
  have positive : 0 < fault.code := by
    have errno : 0 < fault.errno.code := by
      cases fault.errno <;> decide
    unfold Fault.code
    omega
  intro zero
  have code : Int32.ofNat fault.code = 0 := by
    rw [← Int32.neg_neg (a := .ofNat fault.code), ← failure, zero]
    rfl
  have same : (Int32.ofNat fault.code).toInt = fault.code :=
    Int32.toInt_ofNat_of_lt (Nat.lt_trans small (by decide))
  rw [code, Int32.toInt_zero] at same
  omega

end NamedSets.Message.Report
