import NamedSets.Proofs.Engine.Outcomes

namespace NamedSets.Engine

variable {σ : Type} {change : Table σ → List Datum → Table σ × Except Fault Unit}
  {allowExisting : Bool} {table after : Table σ} {block : Attr.Raw} {blocks : List Attr.Raw}
  {position : Nat} {fault : Fault}

def applyBlock (change : Table σ → List Datum → Table σ × Except Fault Unit)
    (allowExisting : Bool) (block : Attr.Raw) (table : Table σ) : Table σ × Except Fault Unit :=
  match elementData block with
  | .error fault => (table, .error fault)
  | .ok data =>
      match change table data with
      | (changed, .ok ()) => (changed, .ok ())
      | (changed, .error fault) =>
          (changed, if excuses allowExisting fault then .ok () else .error fault)

def failingLine (block : Attr.Raw) (position : Nat) : Option UInt32 :=
  match elementData block with
  | .error _ => none
  | .ok data => some (lineOf data position)

theorem applyBatch_cons (position : Nat) (block : Attr.Raw) (rest : List Attr.Raw)
    (table : Table σ) :
    applyBatch change allowExisting position (block :: rest) table =
      match applyBlock change allowExisting block table with
      | (after, .ok ()) => applyBatch change allowExisting (position + 1) rest after
      | (after, .error fault) => (after, .error { fault, line := failingLine block position }) := by
  cases read : elementData block with
  | error fault => simp only [applyBatch, applyBlock, failingLine, read]
  | ok data =>
      cases outcome : change table data with
      | mk changed result =>
          cases result with
          | ok => simp only [applyBatch, applyBlock, read, outcome]
          | error fault =>
              cases excused : excuses allowExisting fault <;>
                simp [applyBatch, applyBlock, failingLine, read, outcome, excused]

/-- Nothing comes of a change that leaves the table alone when it fails. -/
theorem applyBlock_refused (harmless : ∀ data fault, (change table data).2 = .error fault →
      (change table data).1 = table)
    (refused : (applyBlock change allowExisting block table).2 = .error fault) :
    (applyBlock change allowExisting block table).1 = table := by
  cases read : elementData block with
  | error reason => simp only [applyBlock, read]
  | ok data =>
      cases outcome : change table data with
      | mk changed result =>
          simp only [applyBlock, read, outcome] at refused ⊢
          cases result with
          | ok => cases refused
          | error reason =>
              have unchanged := harmless data reason (congrArg Prod.snd outcome)
              rwa [outcome] at unchanged

/-- A batch stops at the first block that fails, and tells its position. -/
theorem applyBatch_stops {earlier : List Attr.Raw} (later : List Attr.Raw) {middle : Table σ}
    (before : applyBatch change allowExisting position earlier table = (middle, .ok ()))
    (fails : applyBlock change allowExisting block middle = (after, .error fault)) :
    applyBatch change allowExisting position (earlier ++ block :: later) table =
      (after, .error { fault, line := failingLine block (position + earlier.length) }) := by
  induction earlier generalizing position table with
  | nil =>
      cases before
      rw [List.nil_append, applyBatch_cons, fails]
      rfl
  | cons first rest ih =>
      rw [applyBatch_cons] at before
      rw [List.cons_append, applyBatch_cons]
      cases applied : applyBlock change allowExisting first table with
      | mk next result =>
          rw [applied] at before
          cases result with
          | error reason => cases before
          | ok =>
              simp only at before ⊢
              rw [ih before, List.length_cons, Nat.add_right_comm, Nat.add_assoc]

/-! ## Requests that bring blocks -/

section Requests

open Message (Request Report)

variable {engine : Engine σ} {request : Request} {slot : Nat}

structure Targets (engine : Engine σ) (request : Request) (slot : Nat) : Prop where
  command : request.command = .add ∨ request.command = .delete
  protocol : request.protocol? = some protocolVersion
  named : ∃ name, request.setName? = some name ∧ engine.table.find? name.text = some slot

structure Brings (engine : Engine σ) (request : Request) (slot : Nat) (blocks : List Attr.Raw) :
    Prop extends engine.Targets request slot where
  listed : blocksOf request = .ok blocks

/-- The blocks are those of a batch, with a line number that a failure can be told by. -/
structure BringsBatch (engine : Engine σ) (request : Request) (slot : Nat)
    (blocks : List Attr.Raw) : Prop extends engine.Targets request slot where
  single : request.data? = none
  batch : ∃ batch, request.batch? = some batch ∧ batch.tag.nested = true ∧
    batch.children = .ok blocks
  numbered : request.lineNumber?.isSome

/-- A set that keeps its name is still the target. -/
theorem Brings.of_sameLabels (brings : engine.Brings request slot blocks)
    (same : Table.SameLabels engine.table table) :
    ({ engine with table } : Engine σ).Brings request slot blocks where
  command := brings.command
  protocol := brings.protocol
  named := by
    obtain ⟨name, named, found⟩ := brings.named
    exact ⟨name, named, (same.find_eq name.text).trans found⟩
  listed := brings.listed

theorem BringsBatch.brings (batch : engine.BringsBatch request slot blocks) :
    engine.Brings request slot blocks where
  toTargets := batch.toTargets
  listed := by
    obtain ⟨nest, given, nested, split⟩ := batch.batch
    simp [blocksOf, batch.single, given, nested, batch.numbered, split]

theorem check_ok {privileged : Bool} (allowed : check privileged request = .ok ()) :
    privileged = true ∧ request.protocol? = some protocolVersion := by
  unfold check at allowed
  split at allowed
  · rename_i privilege
    split at allowed
    · rename_i version told
      split at allowed
      · rename_i same
        exact ⟨privilege, told.trans (congrArg some same)⟩
      · contradiction
    · contradiction
  · contradiction

theorem Brings.check (brings : engine.Brings request slot blocks) :
    Engine.check true request = .ok () := by
  simp [Engine.check, brings.protocol]

variable [ForeignStorage σ]

theorem Brings.dispatch (brings : engine.Brings request slot blocks) :
    engine.dispatch request =
      match engine.changeBlocks request slot blocks with
      | (table, .ok ()) => ({ engine with table }, request, .ok .nothing)
      | (table, .error failure) =>
          ({ engine with table }, failure.line.elim request request.withLine,
            .error failure.fault) := by
  obtain ⟨name, named, found⟩ := brings.named
  have changed := changeElements_eq named brings.listed found
  have carriedOut : engine.dispatch request =
      ((engine.changeElements request).1, (engine.changeElements request).2.1,
        (engine.changeElements request).2.2.map fun _ => .nothing) := by
    rcases brings.command with asked | asked <;> simp only [Engine.dispatch, asked]
  rw [carriedOut, changed]
  cases engine.changeBlocks request slot blocks with
  | mk table result => cases result <;> rfl

theorem Brings.dispatch_ok (brings : engine.Brings request slot blocks)
    (done : engine.changeBlocks request slot blocks = (table, .ok ())) :
    engine.dispatch request = ({ engine with table }, request, .ok .nothing) := by
  rw [brings.dispatch, done]

theorem Brings.handle_ok (brings : engine.Brings request slot blocks)
    (done : engine.changeBlocks request slot blocks = (table, .ok ())) :
    (engine.handle true request).1 = { engine with table } ∧
      (engine.handle true request).2.2.failure? = none :=
  handle_done brings.check (brings.dispatch_ok done)

/-- Blocks that were carried out are acknowledged if the sender asks for it. -/
theorem Brings.handle_eq (brings : engine.Brings request slot blocks)
    (done : engine.changeBlocks request slot blocks = (table, .ok ())) :
    engine.handle true request = ({ engine with table }, request,
      .messages (if request.header.wantsAck then [(Report.answer request none).encode] else [])) := by
  simp only [handle, brings.check, brings.dispatch_ok done, List.nil_append]

theorem Brings.handle_error {failure : Failure} (brings : engine.Brings request slot blocks)
    (failed : engine.changeBlocks request slot blocks = (table, .error failure)) :
    engine.handle true request = ({ engine with table },
      failure.line.elim request request.withLine, .messages [(Report.answer
        (failure.line.elim request request.withLine) (some failure.fault)).encode]) := by
  refine handle_failed brings.check ?_
  rw [brings.dispatch, failed]

/-- A request that adds or deletes elements and is answered without an error comes from a privileged
sender, names a set and brings blocks, which were all carried out. -/
theorem exists_brings {privileged : Bool}
    (asked : request.command = .add ∨ request.command = .delete)
    (done : (engine.handle privileged request).2.2.failure? = none) :
    privileged = true ∧ ∃ slot blocks table, engine.Brings request slot blocks ∧
      engine.changeBlocks request slot blocks = (table, .ok ()) := by
  cases checked : Engine.check privileged request with
  | error fault =>
      rw [handle_refused checked, failure_answer] at done
      cases done
  | ok =>
      obtain ⟨rfl, protocol⟩ := check_ok checked
      refine ⟨rfl, ?_⟩
      obtain ⟨fault, refused⟩ | ⟨name, blocks, slot, named, listed, found⟩ :=
        engine.changeElements_cases request
      · have failed : engine.dispatch request = (engine, request, .error fault) := by
          rcases asked with asked | asked <;> simp only [dispatch, asked, refused] <;> rfl
        rw [handle_failed checked failed, failure_answer] at done
        cases done
      · have brings : engine.Brings request slot blocks :=
          { command := asked, protocol, named := ⟨name, named, found⟩, listed }
        cases applied : engine.changeBlocks request slot blocks with
        | mk table result =>
            cases result with
            | ok => exact ⟨slot, blocks, table, brings, applied⟩
            | error failure =>
                rw [brings.handle_error applied, failure_answer] at done
                cases done

end Requests

end NamedSets.Engine
