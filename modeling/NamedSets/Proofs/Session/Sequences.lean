import NamedSets.Proofs.Session.FailingLines

/-!
# Batches as sequences of requests

A batch does what requests for its blocks do that are sent one after the other, up to the first
that is answered by a failure.
-/

namespace NamedSets

variable {σ : Type} [ForeignStorage σ]

namespace Engine

open Attr (Tree)
open Message (Argument Report Request Segment)

variable {engine : Engine σ} {request single : Request} {slot : Nat} {table : Table σ}
  {block : Attr.Raw} {blocks : List Attr.Raw} {singles : List Request}

/-! ## What stays in a batch -/

theorem sameLabels_elementChange (engine : Engine σ) (request : Request) (slot : Nat)
    (table : Table σ) (data : List Datum) :
    Table.SameLabels table (engine.elementChange request slot table data).1 := by
  obtain ⟨kind, edits⟩ := engine.edits_elementChange request slot
  exact .of_edits (edits table data)

theorem sameLabels_applyBlock (engine : Engine σ) (request : Request) (slot : Nat)
    (allowExisting : Bool) (block : Attr.Raw) (table : Table σ) :
    Table.SameLabels table
      (applyBlock (engine.elementChange request slot) allowExisting block table).1 := by
  unfold applyBlock
  split
  · exact .refl table
  · rename_i data _
    have same := sameLabels_elementChange engine request slot table data
    cases changed : engine.elementChange request slot table data with
    | mk after result =>
        rw [changed] at same
        cases result <;> exact same

/-! ## Requests one after the other -/

/-- Handles requests in order up to the first that is answered by a failure, the code of which is
the answer. -/
def handleAll (engine : Engine σ) (privileged : Bool) : List Request → Engine σ × Option Int32
  | [] => (engine, none)
  | request :: rest =>
      let handled := engine.handle privileged request
      match handled.2.2.failure? with
      | none => handled.1.handleAll privileged rest
      | some code => (handled.1, some code)

theorem handleAll_done {privileged : Bool} {rest : List Request}
    (done : (engine.handle privileged request).2.2.failure? = none) :
    engine.handleAll privileged (request :: rest) =
      (engine.handle privileged request).1.handleAll privileged rest := by
  simp only [handleAll, done]

theorem handleAll_failed {privileged : Bool} {rest : List Request} {code : Int32}
    (failed : (engine.handle privileged request).2.2.failure? = some code) :
    engine.handleAll privileged (request :: rest) =
      ((engine.handle privileged request).1, some code) := by
  simp only [handleAll, failed]

/-- A request has the command, the flags and the set name of another one, and the data of a single
element. -/
structure Single (request : Request) (block : Attr.Raw) (single : Request) : Prop where
  command : single.command = request.command
  flags : single.header.flags = request.header.flags
  protocol : single.protocol? = some protocolVersion
  named : single.setName? = request.setName?
  data : single.data? = some block
  batch : single.batch? = none

def Failure.code? : Except Failure Unit → Option Int32
  | .ok () => none
  | .error failure => some (Report.failure failure.fault)

omit [ForeignStorage σ] in
theorem Single.brings (alone : Single request block single) (targets : engine.Targets request slot)
    (same : Table.SameLabels engine.table table) :
    ({ engine with table } : Engine σ).Brings single slot [block] where
  command := alone.command ▸ targets.command
  protocol := alone.protocol
  named := by
    obtain ⟨name, named, found⟩ := targets.named
    exact ⟨name, alone.named.trans named, (same.find_eq name.text).trans found⟩
  listed := by simp [blocksOf, alone.data, alone.batch]

/-- Sent alone, a block is applied as it is in the batch. -/
theorem Single.changeBlocks (alone : Single request block single) (engine : Engine σ) (slot : Nat)
    (table : Table σ) :
    ({ engine with table } : Engine σ).changeBlocks single slot [block] =
      applyBatch (engine.elementChange request slot) request.header.allowsExisting 0 [block]
        table := by
  have change : ({ engine with table } : Engine σ).elementChange single slot =
      engine.elementChange request slot := by
    funext table data
    simp only [elementChange, alone.command]
  have flags : single.header.allowsExisting = request.header.allowsExisting := by
    simp only [Message.Header.allowsExisting, alone.flags]
  rw [Engine.changeBlocks, change, flags]

/-- Requests for the blocks of a batch come to what the batch comes to. -/
theorem handleAll_singles (targets : engine.Targets request slot)
    (alone : List.Forall₂ (Single request) blocks singles) (position : Nat)
    (same : Table.SameLabels engine.table table) :
    ({ engine with table } : Engine σ).handleAll true singles =
      ({ engine with
        table := (applyBatch (engine.elementChange request slot) request.header.allowsExisting
          position blocks table).1 },
        Failure.code? (applyBatch (engine.elementChange request slot)
          request.header.allowsExisting position blocks table).2) := by
  -- Each request finds the set by its name, which the blocks in front of it leave in its slot.
  induction alone generalizing table position with
  | nil => rfl
  | @cons block single blocks singles one rest ih =>
      have brings := one.brings targets same
      have applied := one.changeBlocks engine slot table
      have later := sameLabels_applyBlock engine request slot request.header.allowsExisting block
        table
      rw [applyBatch_cons] at applied ⊢
      cases outcome : applyBlock (engine.elementChange request slot)
          request.header.allowsExisting block table with
      | mk after result =>
          rw [outcome] at applied later
          cases result with
          | ok =>
              obtain ⟨changed, silent⟩ := brings.handle_ok applied
              rw [handleAll_done silent, changed]
              exact ih (position + 1) (same.trans later)
          | error fault =>
              have failed := brings.handle_error applied
              have code := congrArg (·.2.2.failure?) failed
              rw [handleAll_failed (code.trans (failure_answer _ _)), failed]
              rfl

omit [ForeignStorage σ] in
/-- There are messages that bring the blocks of a batch one by one. -/
theorem exists_singles (batch : engine.BringsBatch request slot blocks)
    (data : ∀ block ∈ blocks, block.tag.number = Argument.dataNumber) :
    ∃ singles, List.Forall₂ (Single request) blocks singles ∧
      ∀ single ∈ singles, Segment.readAll single.raw = .ok [.request single] := by
  obtain ⟨name, named, -⟩ := batch.named
  obtain ⟨nest, -, -, parts⟩ := batch.batch
  let alone (block : Attr.Raw) : Request :=
    .compose request.command request.header.flags request.header.sequence request.header.sender
      [.protocol protocolVersion, .setName name, .data block]
  refine ⟨blocks.map alone, ?_, fun single among => ?_⟩
  · refine List.forall₂_map_right_iff.mpr (List.forall₂_same.mpr fun block _ => ?_)
    exact ⟨rfl, rfl, rfl, named.symm, rfl, rfl⟩
  · obtain ⟨block, present, rfl⟩ := List.mem_map.mp among
    have short := Attr.length_of_mem_split parts present
    have nameShort := name.short
    refine (Request.carries_compose ?_ ?_ ?_).readAll
    · simp [Argument.WellTagged, data block present]
    · simp only [List.forall_mem_cons, Argument.tree, Tree.octet, Tree.text, Tree.raw,
        List.length_append, List.length_singleton]
      exact ⟨by omega, by omega, short, by simp⟩
    · have padded := Bytes.aligned_lt block.payload.length
      have namePadded := Bytes.aligned_lt (Bytes.ofText name.text ++ [0]).length
      have one : Bytes.aligned 1 = 4 := rfl
      simp only [List.map_cons, List.map_nil, Argument.tree, Tree.octet, Tree.text, Tree.sizeAll,
        Tree.size, List.length_append, List.length_singleton, one, Request.headLength,
        UInt32.size] at namePadded ⊢
      omega

/-- A batch makes of the engine what the requests for its blocks make of it that are sent in
order, up to the first that is answered by a failure, and is answered by the same code. -/
theorem batch_as_sequence (batch : engine.BringsBatch request slot blocks)
    (data : ∀ block ∈ blocks, block.tag.number = Argument.dataNumber) :
    (∃ singles, List.Forall₂ (Single request) blocks singles ∧
      ∀ single ∈ singles, Segment.readAll single.raw = .ok [.request single]) ∧
    ∀ singles, List.Forall₂ (Single request) blocks singles →
      (engine.handle true request).1 = (engine.handleAll true singles).1 ∧
        (engine.handle true request).2.2.failure? = (engine.handleAll true singles).2 := by
  refine ⟨exists_singles batch data, fun singles alone => ?_⟩
  have sequence := handleAll_singles batch.toTargets alone 0 (.refl engine.table)
  change engine.handleAll true singles = ({ engine with
    table := (engine.changeBlocks request slot blocks).1 },
      Failure.code? (engine.changeBlocks request slot blocks).2) at sequence
  rw [sequence]
  cases applied : engine.changeBlocks request slot blocks with
  | mk after result =>
      cases result with
      | ok => exact batch.brings.handle_ok applied
      | error failure =>
          rw [batch.brings.handle_error applied]
          exact ⟨rfl, failure_answer _ _⟩

end Engine

namespace Session

open Engine
open Message (Argument Report Request Segment)

def mixed : List Attr.Tree :=
  [addressBlock (.v4 10), addressBlock (.v4 11), addressBlock (.v4 10), addressBlock (.v4 12)]

/-- The third block fails as it does alone, and the fourth is not applied. -/
theorem batch_as_sequence_mixed :
    shared.engine.BringsBatch (adding mixed) 0 (mixed.map (·.raw)) ∧
      ∃ singles, List.Forall₂ (Engine.Single (adding mixed)) (mixed.map (·.raw)) singles ∧
        (∀ single ∈ singles, Segment.readAll single.raw = .ok [.request single]) ∧
        (shared.engine.handle true (adding mixed)).1 = (shared.engine.handleAll true singles).1 ∧
        (shared.engine.handleAll true singles).2 = some (Report.failure .elementExists) := by
  have batch := adding_batch mixed (by decide +kernel)
  have failed : (shared.engine.handle true (adding mixed)).2.2.failure? =
      some (Report.failure .elementExists) := by
    decide +kernel
  obtain ⟨⟨singles, alone, received⟩, sequence⟩ := batch_as_sequence batch (by decide +kernel)
  obtain ⟨changed, code⟩ := sequence singles alone
  exact ⟨batch, singles, alone, received, changed, code.symm.trans failed⟩

end Session

end NamedSets
