import NamedSets.Proofs.Engine.Changes
import NamedSets.Proofs.Message.Reports

namespace NamedSets.Engine

open Message (Request Report)

variable {σ : Type} {engine changed : Engine σ} {privileged : Bool} {request echoed : Request}
  {fault : Fault} {slot : Nat}

/-! ## Answers -/

def Answer.failure? : Answer → Option Int32
  | .messages sent => sent.findSome? fun message => (Report.code? message).filter (· ≠ 0)
  | .dump _ => none

theorem failure_answer (request : Request) (fault : Fault) :
    Answer.failure? (.messages [(Report.answer request (some fault)).encode]) =
      some (Report.failure fault) := by
  have code : Report.code? (Report.answer request (some fault)).encode =
      some (Report.failure fault) := Report.code_encode rfl
  simp [Answer.failure?, code, Report.failure_ne_zero]

variable [ForeignStorage σ]

/-! ## Creations -/

def Creation.forTable (creation : Creation) : Table.Creation where
  name := creation.name
  family := creation.family
  allowExisting := creation.allowExisting

/-- A storage that a type makes comes to the table. -/
theorem create_made {creation : Creation} {type : SetType σ} {storage : Storage σ}
    (known : (engine.catalog.lookupOrLoad creation.typeName creation.family
      creation.revision).2 = some type)
    (made : type.maker.make creation.family creation.data = .ok storage) :
    (engine.create creation).1.table = (engine.table.create creation.forTable type storage).1 ∧
      (engine.create creation).2 = (engine.table.create creation.forTable type storage).2 := by
  simp only [create, known, made, withTable, Creation.forTable, and_self]

/-- A creation is refused before it comes to the table, or a storage is made that the table takes
or refuses. -/
theorem create_cases (engine : Engine σ) (creation : Creation) :
    (∃ fault, (engine.create creation).1.table = engine.table ∧
      (engine.create creation).2 = .error fault) ∨
    ∃ type storage,
      (engine.catalog.lookupOrLoad creation.typeName creation.family creation.revision).2 =
        some type ∧
      type.maker.make creation.family creation.data = .ok storage ∧
      (engine.create creation).1.table =
        (engine.table.create creation.forTable type storage).1 ∧
      (engine.create creation).2 = (engine.table.create creation.forTable type storage).2 := by
  cases known : (engine.catalog.lookupOrLoad creation.typeName creation.family
      creation.revision).2 with
  | none => exact .inl ⟨.typeNotFound, by simp only [create, known], by simp only [create, known]⟩
  | some type =>
      cases made : type.maker.make creation.family creation.data with
      | error fault =>
          exact .inl ⟨fault, by simp only [create, known, made], by simp only [create, known, made]⟩
      | ok storage => exact .inr ⟨type, storage, rfl, made, create_made known made⟩

/-! ## Elements -/

def elementChange (engine : Engine σ) (request : Request) (slot : Nat) (table : Table σ)
    (data : List Datum) : Table σ × Except Fault Unit :=
  if request.command = .add then
    table.addElementResizing slot engine.settings.maxResizeRetries.toNat data
  else table.deleteElement slot data

def changeBlocks (engine : Engine σ) (request : Request) (slot : Nat) (blocks : List Attr.Raw) :
    Table σ × Except Failure Unit :=
  applyBatch (engine.elementChange request slot) request.header.allowsExisting 0 blocks
    engine.table

theorem edits_elementChange (engine : Engine σ) (request : Request) (slot : Nat) :
    ∃ kind, ∀ table data,
      Table.Edits kind table (engine.elementChange request slot table data).1 := by
  by_cases adds : request.command = .add
  · refine ⟨.add, fun table data => ?_⟩
    rw [elementChange, if_pos adds]
    exact Table.edits_addElementResizing table slot _ data
  · refine ⟨.delete, fun table data => ?_⟩
    rw [elementChange, if_neg adds]
    exact Table.edits_deleteElement table slot data

theorem edits_changeBlocks (engine : Engine σ) (request : Request) (slot : Nat)
    (blocks : List Attr.Raw) :
    ∃ kind, Table.Edits kind engine.table (engine.changeBlocks request slot blocks).1 := by
  obtain ⟨kind, edits⟩ := engine.edits_elementChange request slot
  exact ⟨kind, Table.edits_applyBatch edits 0 blocks engine.table⟩

theorem changeElements_eq {name : SetName} {blocks : List Attr.Raw}
    (named : request.setName? = some name) (listed : blocksOf request = .ok blocks)
    (found : engine.table.find? name.text = some slot) :
    engine.changeElements request =
      match engine.changeBlocks request slot blocks with
      | (table, .ok ()) => ({ engine with table }, request, .ok ())
      | (table, .error failure) =>
          ({ engine with table }, failure.line.elim request request.withLine,
            .error failure.fault) := by
  unfold changeElements
  simp only [requiredName, named, listed, found, bind, Except.bind]
  change (match engine.changeBlocks request slot blocks with
    | (table, .ok ()) => _
    | (table, .error failure) => _) = _
  split
  · rfl
  · rename_i failure outcome
    cases failure.line <;> rfl

/-- An add or delete request is refused, or its blocks are taken to the set that it names. -/
theorem changeElements_cases (engine : Engine σ) (request : Request) :
    (∃ fault, engine.changeElements request = (engine, request, .error fault)) ∨
    ∃ name blocks slot, request.setName? = some name ∧ blocksOf request = .ok blocks ∧
      engine.table.find? name.text = some slot := by
  cases named : request.setName? with
  | none =>
      exact .inl ⟨.setNameMissing, by
        simp only [changeElements, requiredName, named, bind, Except.bind]⟩
  | some name =>
      cases listed : blocksOf request with
      | error fault =>
          exact .inl ⟨fault, by
            simp only [changeElements, requiredName, named, listed, bind, Except.bind]⟩
      | ok blocks =>
          cases found : engine.table.find? name.text with
          | none =>
              exact .inl ⟨.noSuchSet, by
                simp only [changeElements, requiredName, named, listed, found, bind, Except.bind]⟩
          | some slot => exact .inr ⟨name, blocks, slot, rfl, rfl, found⟩

/-! ## Commands -/

/-- What carrying out a request comes to: the engine afterwards, and whether it failed. -/
inductive Outcome (engine : Engine σ) (request : Request) : Engine σ → Except Fault Unit → Prop
  | unchanged (result : Except Fault Unit) : Outcome engine request engine result
  | findRevisions (name : String) (family : Family) (result : Except Fault Unit) :
      Outcome engine request
        { engine with catalog := (engine.catalog.revisionRangeOrLoad name family).1 } result
  | create (creation : Creation) :
      Outcome engine request (engine.create creation).1
        ((engine.create creation).2.map fun _ => ())
  | destroy {name : SetName} (asked : request.command = .destroy)
      (named : request.setName? = some name) :
      Outcome engine request { engine with table := (engine.table.destroy name.text).1 }
        (engine.table.destroy name.text).2
  | destroyAll (asked : request.command = .destroy) (unnamed : request.setName? = none) :
      Outcome engine request { engine with table := engine.table.destroyAll.1 }
        engine.table.destroyAll.2
  | flush (name : String) :
      Outcome engine request { engine with table := (engine.table.flush name).1 }
        (engine.table.flush name).2
  | flushAll : Outcome engine request { engine with table := engine.table.flushAll } (.ok ())
  | rename {name : SetName} (asked : request.command = .rename)
      (named : request.setName? = some name) (newName : SetName) :
      Outcome engine request { engine with table := (engine.table.rename name.text newName).1 }
        (engine.table.rename name.text newName).2
  | swap {name second : SetName} (asked : request.command = .swap)
      (named : request.setName? = some name) (secondNamed : request.typeName? = some second) :
      Outcome engine request { engine with table := (engine.table.swap name.text second.text).1 }
        (engine.table.swap name.text second.text).2
  | changeBlocks {blocks : List Attr.Raw}
      (asked : request.command = .add ∨ request.command = .delete)
      (listed : blocksOf request = .ok blocks) (slot : Nat) :
      Outcome engine request { engine with table := (engine.changeBlocks request slot blocks).1 }
        ((engine.changeBlocks request slot blocks).2.mapError Failure.fault)
  | test (slot : Nat) (data : List Datum) (result : Except Fault Unit) :
      Outcome engine request { engine with table := (engine.table.testElement slot data).1 } result

theorem createSet_outcome (engine : Engine σ) (request : Request) :
    engine.Outcome request (engine.createSet request).1 (engine.createSet request).2 := by
  cases asked : creationOf request with
  | error fault =>
      simp only [createSet, asked]
      exact .unchanged _
  | ok creation =>
      have outcome : engine.Outcome request _ _ := .create creation
      simp only [createSet, asked]
      cases made : engine.create creation with
      | mk changed result =>
          rw [made] at outcome
          cases result <;> exact outcome

theorem destroySets_outcome (asked : request.command = .destroy) :
    engine.Outcome request (engine.destroySets request).1 (engine.destroySets request).2 := by
  unfold destroySets
  split
  · rename_i named
    exact .destroy asked named
  · rename_i unnamed
    exact .destroyAll asked unnamed

theorem flushSets_outcome (engine : Engine σ) (request : Request) :
    engine.Outcome request (engine.flushSets request).1 (engine.flushSets request).2 := by
  unfold flushSets
  split
  · exact .flush _
  · exact .flushAll

theorem renameSet_outcome (asked : request.command = .rename) :
    engine.Outcome request (engine.renameSet request).1 (engine.renameSet request).2 := by
  cases named : request.setName? with
  | none =>
      simp only [renameSet, requiredName, named]
      exact .unchanged _
  | some name =>
      cases renamed : request.typeName? with
      | none =>
          simp only [renameSet, requiredName, named, renamed]
          exact .unchanged _
      | some newName =>
          simp only [renameSet, requiredName, named, renamed]
          exact .rename asked named newName

theorem swapSets_outcome (asked : request.command = .swap) :
    engine.Outcome request (engine.swapSets request).1 (engine.swapSets request).2 := by
  cases named : request.setName? with
  | none =>
      simp only [swapSets, requiredName, named]
      exact .unchanged _
  | some name =>
      cases secondNamed : request.typeName? with
      | none =>
          simp only [swapSets, requiredName, named, secondNamed]
          exact .unchanged _
      | some second =>
          simp only [swapSets, requiredName, named, secondNamed]
          exact .swap asked named secondNamed

theorem changeElements_outcome (asked : request.command = .add ∨ request.command = .delete) :
    engine.Outcome request (engine.changeElements request).1
      (engine.changeElements request).2.2 := by
  obtain ⟨fault, refused⟩ | ⟨name, blocks, slot, named, listed, found⟩ :=
    engine.changeElements_cases request
  · rw [refused]
    exact .unchanged _
  · have outcome : engine.Outcome request _ _ := .changeBlocks asked listed slot
    rw [changeElements_eq named listed found]
    cases applied : engine.changeBlocks request slot blocks with
    | mk table result =>
        rw [applied] at outcome
        cases result <;> exact outcome

theorem testElement_outcome (engine : Engine σ) (request : Request) :
    engine.Outcome request (engine.testElement request).1 (engine.testElement request).2 := by
  unfold testElement
  extract_lets checked
  cases checked with
  | error fault => exact .unchanged _
  | ok target => exact .test target.2 target.1 _

theorem replyType_outcome (engine : Engine σ) (request : Request) (result : Except Fault Unit) :
    engine.Outcome request (engine.replyType request).1 result := by
  unfold replyType
  split
  · split
    · exact .unchanged _
    · dsimp only
      split <;> exact .findRevisions _ _ _
  · exact .unchanged _

theorem dispatch_outcome (engine : Engine σ) (request : Request) :
    engine.Outcome request (engine.dispatch request).1
      ((engine.dispatch request).2.2.map fun _ => ()) := by
  have silent {after : Engine σ} {result : Except Fault Unit}
      (outcome : engine.Outcome request after result) :
      engine.Outcome request after
        ((result.map fun _ => Product.nothing).map fun _ => ()) := by
    cases result <;> exact outcome
  cases command : request.command with
  | protocol | list | save | header =>
      simp only [dispatch, command]
      exact .unchanged _
  | create =>
      simp only [dispatch, command]
      exact silent (engine.createSet_outcome request)
  | destroy =>
      simp only [dispatch, command]
      exact silent (destroySets_outcome command)
  | flush =>
      simp only [dispatch, command]
      exact silent (engine.flushSets_outcome request)
  | rename =>
      simp only [dispatch, command]
      exact silent (renameSet_outcome command)
  | swap =>
      simp only [dispatch, command]
      exact silent (swapSets_outcome command)
  | add | delete =>
      simp only [dispatch, command]
      exact silent (changeElements_outcome (by simp [command]))
  | test =>
      simp only [dispatch, command]
      exact silent (engine.testElement_outcome request)
  | type =>
      simp only [dispatch, command]
      exact engine.replyType_outcome request _

/-- What a request comes to is one of the changes of an engine. -/
theorem Outcome.change {result : Except Fault Unit}
    (outcome : engine.Outcome request changed result) :
    engine.Change (request.command = .add) (swappedBy request) changed := by
  cases outcome with
  | unchanged => exact .nothing
  | findRevisions name family => exact .findRevisions name family
  | create creation => exact engine.create_change creation
  | destroy asked named => exact .destroy _
  | destroyAll asked unnamed => exact .destroyAll
  | flush name => exact .flush name
  | flushAll => exact .flushAll
  | rename asked named newName => exact .rename _ newName
  | swap asked named secondNamed =>
      exact .swap _ _ (by simp [swappedBy, asked, named]) (by simp [swappedBy, asked, secondNamed])
  | changeBlocks asked listed slot =>
      unfold Engine.changeBlocks elementChange
      by_cases adds : request.command = .add
      · simp only [if_pos adds]
        exact .addElements adds slot _ 0 _ _
      · simp only [if_neg adds]
        exact .deleteElements slot 0 _ _
  | test slot data => exact .testElement slot data

/-! ## Requests as they are answered -/

theorem handle_refused (refused : check privileged request = .error fault) :
    engine.handle privileged request =
      (engine, request, .messages [(Report.answer request (some fault)).encode]) := by
  simp only [handle, refused]

theorem handle_failed (allowed : check privileged request = .ok ())
    (failed : engine.dispatch request = (changed, echoed, .error fault)) :
    engine.handle privileged request =
      (changed, echoed, .messages [(Report.answer echoed (some fault)).encode]) := by
  simp only [handle, allowed, failed]

omit [ForeignStorage σ] in
theorem reply_ok {trees : List Attr.Tree} {message : Bytes}
    (written : engine.reply request trees = .ok message) :
    ∃ draft : Message.Draft, message = draft.finish := by
  obtain ⟨start, -, written⟩ := ok_of_bind written
  obtain ⟨draft, -, written⟩ := ok_of_bind written
  split at written
  · cases written
    exact ⟨_, rfl⟩
  · contradiction

/-- A message that a command produces is a finished draft. -/
theorem dispatch_message {message : Bytes}
    (produced : (engine.dispatch request).2.2 = .ok (.message message)) :
    ∃ draft : Message.Draft, message = draft.finish := by
  have written {result : Except Fault Bytes}
      (replied : result.map Product.message = .ok (.message message)) : result = .ok message := by
    cases result <;> cases replied
    rfl
  have silent {α : Type} {product : α → Product} {result : Except Fault α}
      (replied : result.map product = .ok (.message message)) :
      ∃ value, product value = .message message := by
    cases result with
    | error fault => cases replied
    | ok value => exact ⟨value, by simpa [Except.map] using replied⟩
  cases command : request.command with
  | protocol =>
      simp only [dispatch, command] at produced
      exact reply_ok (written produced)
  | header =>
      simp only [dispatch, command] at produced
      have replied := written produced
      obtain ⟨name, -, replied⟩ := ok_of_bind replied
      split at replied
      · contradiction
      · exact reply_ok replied
  | type =>
      simp only [dispatch, command] at produced
      have replied := written produced
      unfold replyType at replied
      split at replied
      · split at replied
        · contradiction
        · dsimp only at replied
          split at replied
          · contradiction
          · exact reply_ok replied
      · contradiction
  | _ =>
      simp only [dispatch, command] at produced
      obtain ⟨_, other⟩ := silent produced
      cases other

/-- The code that a request is answered with, and what became of it. -/
theorem handle_done {product : Product} (allowed : check privileged request = .ok ())
    (done : engine.dispatch request = (changed, echoed, .ok product)) :
    (engine.handle privileged request).1 = changed ∧
      (engine.handle privileged request).2.2.failure? = none := by
  have acknowledged {replies : List Bytes} (silent : ∀ reply ∈ replies, Report.code? reply = none) :
      Answer.failure? (.messages (replies ++
        if echoed.header.wantsAck then [(Report.answer echoed none).encode] else [])) = none := by
    have success : Report.code? (Report.answer echoed none).encode = some 0 :=
      Report.code_encode rfl
    refine List.findSome?_eq_none_iff.mpr fun message among => ?_
    rcases List.mem_append.mp among with reply | acknowledgement
    · rw [silent message reply]
      rfl
    · split at acknowledgement
      · rw [List.mem_singleton.mp acknowledgement, success]
        rfl
      · contradiction
  cases product with
  | nothing =>
      simp only [handle, allowed, done, true_and]
      exact acknowledged (by simp)
  | message reply =>
      obtain ⟨draft, rfl⟩ := dispatch_message (congrArg (·.2.2) done)
      simp only [handle, allowed, done, true_and]
      refine acknowledged fun message among => ?_
      rw [List.mem_singleton.mp among]
      exact Report.code_finish draft
  | dump dump =>
      simp only [handle, allowed, done, true_and]
      rfl

/-- What a request comes to, and the code that it is answered with. -/
theorem handle_outcome (engine : Engine σ) (privileged : Bool) (request : Request) :
    ∃ result, engine.Outcome request (engine.handle privileged request).1 result ∧
      (engine.handle privileged request).2.2.failure? = match result with
        | .ok () => none
        | .error fault => some (Report.failure fault) := by
  cases allowed : check privileged request with
  | error fault =>
      rw [handle_refused allowed]
      exact ⟨.error fault, .unchanged _, failure_answer request fault⟩
  | ok =>
      have outcome := engine.dispatch_outcome request
      cases dispatched : engine.dispatch request with
      | mk changed rest =>
          obtain ⟨echoed, result⟩ := rest
          rw [dispatched] at outcome
          cases result with
          | error fault =>
              rw [handle_failed allowed dispatched]
              exact ⟨_, outcome, failure_answer echoed fault⟩
          | ok product =>
              obtain ⟨same, silent⟩ := handle_done allowed dispatched
              rw [same]
              exact ⟨_, outcome, silent⟩

theorem handle_change (engine : Engine σ) (privileged : Bool) (request : Request) :
    engine.Change (request.command = .add) (swappedBy request)
      (engine.handle privileged request).1 :=
  have ⟨_, outcome, _⟩ := engine.handle_outcome privileged request
  outcome.change

end NamedSets.Engine
