import NamedSets.Proofs.Message.Frames
import NamedSets.Proofs.Message.Reports

namespace NamedSets.Message

variable {buffer first rest payload : Bytes} {header : Header} {segment : Segment}
  {segments : List Segment} {report : Report}

/-! ## Messages behind each other -/

namespace Segment

/-- What is read first in a buffer, and behind it what is read from the remaining bytes. -/
theorem readAll_header (found : Header.read? buffer = some header) :
    readAll buffer = (read header (buffer.drop Header.width)).bind fun segment =>
      (readAll ((buffer.drop Header.width).drop (stride header))).map (segment :: ·) := by
  rw [readAll]
  split
  · rename_i short
    simp [short] at found
  · rename_i other same
    cases found.symm.trans same
    dsimp only
    cases read header (buffer.drop Header.width) with
    | error fault => rfl
    | ok segment =>
        cases readAll ((buffer.drop Header.width).drop (stride header)) <;> rfl

/-- A message is read from its payload alone. -/
theorem read_eq_of_payload {other : Bytes}
    (same : Request.payload header other = Request.payload header rest) :
    read header other = read header rest := by
  simp only [read, Request.read, same]

theorem read_payload (taken : Request.payload header rest = .ok payload) (more : Bytes) :
    read header (rest ++ more) = read header rest :=
  read_eq_of_payload ((Request.payload_append taken more).trans taken.symm)

end Segment

/-- Messages that fill a buffer are read in front of what follows, which is read as on its own. -/
theorem Framed.readAll_append (complete : Framed first)
    (received : Segment.readAll first = .ok segments) (second : Bytes) :
    Segment.readAll (first ++ second) = (Segment.readAll second).map (segments ++ ·) := by
  induction complete generalizing segments with
  | nil =>
      obtain rfl : segments = [] := by
        rw [Segment.readAll] at received
        exact (Except.ok.inj received).symm
      cases alone : Segment.readAll second <;> simp [alone, Except.map]
  | @cons buffer payload header found taken padded others ih =>
      have stride : Segment.stride header = Bytes.aligned payload.length := by
        rw [Segment.stride, (Request.payload_ok taken).1, Nat.add_sub_cancel_left]
      rw [Segment.readAll_header found, stride] at received
      rw [Segment.readAll_header (Header.read_append found second),
        List.drop_append_of_le_length (Header.length_of_read found), Segment.read_payload taken,
        stride, List.drop_append_of_le_length padded]
      cases read : Segment.read header (buffer.drop Header.width) with
      | error fault => simp [read, Except.bind] at received
      | ok segment =>
          simp only [read, Except.bind] at received ⊢
          cases remaining : Segment.readAll
              ((buffer.drop Header.width).drop (Bytes.aligned payload.length)) with
          | error fault =>
              rw [remaining] at received
              cases received
          | ok later =>
              rw [remaining] at received
              cases received
              rw [ih remaining]
              cases Segment.readAll second <;> rfl

/-! ## Echoes -/

namespace Report

/-- A report is read back as it was written exactly if its length fits into its header. -/
theorem readAll_encode_iff (typed : report.header.messageType = messageType)
    (length : report.header.length = .ofNat (Header.width + 4 + report.echoed.length)) :
    Segment.readAll report.encode = .ok [.report report] ↔
      Header.width + 4 + report.echoed.length < UInt32.size := by
  constructor
  · intro received
    obtain ⟨header, -, read, -⟩ := Segment.readAll_cons received
    obtain ⟨-, payload, taken, long, same⟩ := Segment.read_report read
    have announced := (Request.payload_ok taken).1
    have bound := header.length.toNat_lt_size
    rw [same, List.length_drop]
    omega
  · intro fits
    exact readAll_encode typed (length ▸ UInt32.toNat_ofNat_of_lt' fits)

end Report

/-- Reading is concatenative, and echoes are exact. Messages that fill a buffer are read in front
of whatever follows, which is read, or refused, as on its own. A request that was received is read
again, alone, from its own bytes, which are those that the report of a failure echoes. A report of
any outcome, on bytes of any length, is read back as it is and alone, unless its length does not
fit into the 32 bits of its header. -/
theorem reading_concatenates :
    (∀ first segments second, Framed first → Segment.readAll first = .ok segments →
      Segment.readAll (first ++ second) = (Segment.readAll second).map (segments ++ ·)) ∧
    (∀ bytes segments request, Segment.readAll bytes = .ok segments →
      .request request ∈ segments →
        Segment.readAll request.raw = .ok [.request request] ∧
        ∀ fault, (Report.answer request (some fault)).echoed = request.raw) ∧
    ∀ header raw fault?,
      Segment.readAll (Report.answering header raw fault?).encode =
          .ok [.report (Report.answering header raw fault?)] ↔
        Header.width + 4 + (Report.answering header raw fault?).echoed.length < UInt32.size := by
  refine ⟨fun _ _ second complete received => complete.readAll_append received second,
    fun _ _ request received among => ⟨?_, fun _ => rfl⟩,
    fun header raw fault? => Report.readAll_encode_iff rfl rfl⟩
  obtain ⟨block, carries⟩ := Request.exists_carries received among
  exact carries.readAll

def question : Request := .compose .protocol 1 5 9 [.protocol 6]

/-- A report that echoes a part of the request, of a length that has to be padded. -/
def oddReport : Report := .answering question.header (question.raw.take 21) (some .attributeLength)

theorem reading_concatenates_odd :
    Framed question.raw ∧ Segment.readAll question.raw = .ok [.request question] ∧
      Segment.readAll (question.raw ++ oddReport.encode) =
        .ok [.request question, .report oddReport] ∧
      Segment.readAll (Report.answer question (some .attributeLength)).echoed =
        .ok [.request question] := by
  obtain ⟨behind, again, told⟩ := reading_concatenates
  have complete : Framed question.raw := .cons_encode (question.raw.drop Header.width) []
    (by decide +kernel) (by decide +kernel) .nil
  have received : Segment.readAll question.raw = .ok [.request question] := by decide +kernel
  have read : Segment.readAll oddReport.encode = .ok [.report oddReport] :=
    (told _ _ _).mpr (by decide +kernel)
  obtain ⟨alone, echoed⟩ := again _ _ question received List.mem_cons_self
  refine ⟨complete, received, ?_, (echoed _).symm ▸ alone⟩
  rw [behind _ _ _ complete received, read]
  rfl

end NamedSets.Message
