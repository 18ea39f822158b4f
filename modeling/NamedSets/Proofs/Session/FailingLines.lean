import NamedSets.Proofs.Engine.Batches
import NamedSets.Proofs.Message.Lines
import NamedSets.Proofs.Session.Soundness

namespace NamedSets

namespace Engine

open Message (Request Report Segment)

variable {σ : Type} [ForeignStorage σ] {engine : Engine σ} {request : Request} {slot : Nat}
  {bytes : Bytes} {segments : List Segment} {earlier later : List Attr.Raw} {block : Attr.Raw}
  {middle : Table σ} {fault : Fault}

/-- Of a batch that was received and stops at its first element that fails, the report echoes a
request that can be read, and that tells the line of the element if its data can be read. -/
theorem failing_line_told (received : Segment.readAll bytes = .ok segments)
    (among : .request request ∈ segments)
    (batch : engine.BringsBatch request slot (earlier ++ block :: later))
    (before : applyBatch (engine.elementChange request slot) request.header.allowsExisting 0
      earlier engine.table = (middle, .ok ()))
    (fails : (applyBlock (engine.elementChange request slot) request.header.allowsExisting
      block middle).2 = .error fault) :
    ∃ report echoed,
      (engine.handle true request).2.2 = .messages [report.encode] ∧
      report.code = Report.failure fault ∧
      (request.header.length.toNat + 20 < UInt32.size →
        Segment.readAll report.encode = .ok [.report report]) ∧
      Segment.readAll report.echoed = .ok [.request echoed] ∧
      echoed.lineNumber? = match elementData block with
        | .ok data => some (lineOf data earlier.length)
        | .error _ => request.lineNumber? := by
  obtain ⟨bytes, carries⟩ := Request.exists_carries received among
  cases applied : applyBlock (engine.elementChange request slot)
      request.header.allowsExisting block middle with
  | mk after result =>
      cases (congrArg Prod.snd applied).symm.trans fails
      have stopped := applyBatch_stops later before applied
      rw [Nat.zero_add] at stopped
      have answered := batch.brings.handle_error stopped
      obtain ⟨echoed, content, echo, header, raw, line⟩ :=
        Request.exists_echo carries batch.numbered (failingLine block earlier.length)
      refine ⟨_, echoed, congrArg (·.2.2) answered, rfl, fun fits => ?_, ?_, ?_⟩
      · refine Report.readAll_answer ?_
        change Message.Header.width + 4 + List.length (Request.raw _) < _
        rw [raw, echo.length_raw, header, Nat.add_comm]
        exact fits
      · change Segment.readAll (Request.raw _) = _
        rw [raw]
        exact echo.readAll
      · rw [line, failingLine]
        cases elementData block <;> rfl

end Engine

namespace Session

open Engine
open Message (Argument Report Request Segment)

def adding (entries : List Attr.Tree) : Request :=
  .compose .add 0x205 5 9 [.protocol protocolVersion, .setName memberName, .lineNumber 7,
    .batch (Attr.Tree.block Argument.batchNumber entries).raw]

theorem adding_batch (entries : List Attr.Tree) (small : ∀ entry ∈ entries, entry.size < 65536) :
    shared.engine.BringsBatch (adding entries) 0 (entries.map (·.raw)) where
  command := .inl rfl
  protocol := rfl
  named := ⟨memberName, rfl, by decide +kernel⟩
  single := rfl
  batch := ⟨_, rfl, rfl, Attr.split_encodeAll small⟩
  numbered := rfl

def addressBlock (address : Address) : Attr.Tree := Argument.dataBlock [.ip address]

def linedBlock (address : Address) (line : UInt32) : Attr.Tree :=
  Argument.dataBlock [.ip address, .lineNumber line]

def repeated : List Attr.Tree := [addressBlock (.v4 10), linedBlock (.v4 10) 9]

theorem failing_line_told_repeated :
    Segment.readAll (adding repeated).raw = .ok [.request (adding repeated)] ∧
      shared.engine.BringsBatch (adding repeated) 0 (repeated.map (·.raw)) ∧
      ∃ (report : Report) (echoed : Request),
        (shared.engine.handle true (adding repeated)).2.2 = .messages [report.encode] ∧
        report.code = Report.failure .elementExists ∧
        Segment.readAll report.encode = .ok [.report report] ∧
        Segment.readAll report.echoed = .ok [.request echoed] ∧ echoed.lineNumber? = some 9 := by
  have received : Segment.readAll (adding repeated).raw = .ok [.request (adding repeated)] := by
    decide +kernel
  have batch := adding_batch repeated (by decide +kernel)
  have stops : ∃ middle, applyBatch (shared.engine.elementChange (adding repeated) 0)
        (adding repeated).header.allowsExisting 0 [(addressBlock (.v4 10)).raw]
          shared.engine.table = (middle, .ok ()) ∧
      (applyBlock (shared.engine.elementChange (adding repeated) 0)
        (adding repeated).header.allowsExisting (linedBlock (.v4 10) 9).raw middle).2 =
          .error .elementExists :=
    ⟨_, Prod.ext rfl (by decide +kernel), by decide +kernel⟩
  obtain ⟨middle, before, fails⟩ := stops
  obtain ⟨report, echoed, answered, code, read, echo, line⟩ :=
    failing_line_told received List.mem_cons_self batch before fails
  refine ⟨received, batch, report, echoed, answered, code, read (by decide +kernel), echo, ?_⟩
  rw [line]
  decide +kernel

/-- An address and an entry that is not the data of an element. -/
def misplaced : List Attr.Tree := [addressBlock (.v4 10), .text Argument.typeNameNumber "m"]

/-- An entry that is not the data of an element keeps the line of the request, although it is the
second one of its batch. -/
theorem line_not_told :
    Segment.readAll (adding misplaced).raw = .ok [.request (adding misplaced)] ∧
      shared.engine.BringsBatch (adding misplaced) 0 (misplaced.map (·.raw)) ∧
      ∃ (report : Report) (echoed : Request),
        (shared.engine.handle true (adding misplaced)).2.2 = .messages [report.encode] ∧
        report.code = Report.failure .notDataBlock ∧
        Segment.readAll report.echoed = .ok [.request echoed] ∧
        echoed.lineNumber? = some 7 ∧ echoed.lineNumber? ≠ some (.ofNat (1 + 1)) := by
  have batch := adding_batch misplaced (by decide +kernel)
  refine ⟨by decide +kernel, batch, .answer (adding misplaced) (some .notDataBlock),
    adding misplaced, ?_, rfl, ?_, rfl, by decide⟩
  · decide +kernel
  · decide +kernel

end Session

end NamedSets
