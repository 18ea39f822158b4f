import NamedSets.Proofs.Session.Recreation
import NamedSets.Proofs.Session.Restoring
import NamedSets.Proofs.Table.Settling

namespace NamedSets

/-! ## Single elements in requests -/

namespace Engine

open Message (Request Report)

variable {σ : Type} [ForeignStorage σ] {engine : Engine σ} {request : Request} {slot : Nat}
  {block : Attr.Raw} {data : List Datum} {table : Table σ} {fault : Fault}

theorem Brings.handle_added (brings : engine.Brings request slot [block])
    (adds : request.command = .add) (read : elementData block = .ok data)
    (added : engine.table.addElementResizing slot engine.settings.maxResizeRetries.toNat data =
      (table, .ok ())) :
    (engine.handle true request).1.table = table ∧
      (engine.handle true request).2.2.failure? = none := by
  have change : engine.elementChange request slot engine.table data = (table, .ok ()) := by
    rw [elementChange, if_pos adds, added]
  have changed : engine.changeBlocks request slot [block] = (table, .ok ()) := by
    rw [changeBlocks, applyBatch_cons]
    simp only [applyBlock, read, change, applyBatch]
  obtain ⟨after, answered⟩ := brings.handle_ok changed
  exact ⟨congrArg Engine.table after, answered⟩

theorem Brings.handle_failing (brings : engine.Brings request slot [block])
    (adds : request.command = .add) (read : elementData block = .ok data)
    (failed : engine.table.addElementResizing slot engine.settings.maxResizeRetries.toNat data =
      (table, .error fault)) (counts : fault.errno ≠ .element) :
    (engine.handle true request).1.table = table ∧
      (engine.handle true request).2.2.failure? = some (Report.failure fault) := by
  have change : engine.elementChange request slot engine.table data = (table, .error fault) := by
    rw [elementChange, if_pos adds, failed]
  have excused : excuses request.header.allowsExisting fault = false := by
    simp [excuses, counts]
  have changed : engine.changeBlocks request slot [block] =
      (table, .error { fault, line := failingLine block 0 }) := by
    rw [changeBlocks, applyBatch_cons]
    simp only [applyBlock, read, change, excused]
    rfl
  rw [brings.handle_error changed]
  exact ⟨rfl, failure_answer _ fault⟩

end Engine

/-! ## Hashes in use -/

namespace Session

open Message (Request Segment)

variable {σ : Type} [ForeignStorage σ] {session : Session σ} {slot : Nat} {hash : AddressHash}
  {data : List Datum} {element : Address}

/-- An add of an element that a hash in use does not have settles, if it may be tried again at
all. The hash is asked to grow once at most. With room for one more element, in the hash or in a
larger one, the element comes behind the others; without it the add fails because the hash is
full, and the table stays as it is. A request that brings the element is answered so. -/
theorem adding_settles {rule : Session σ → Operation σ → Prop} (reachable : session.Reachable rule)
    (stored : session.table.storage? slot = some (.hash hash))
    (described : hash.elementOfData data = .ok element) (fresh : hash.contains element = false) :
    (hash.withElement element).contains element = true ∧
    (∀ retries, 1 ≤ retries →
      (session.table.addElementNoting slot retries data).1.2.countP Table.Attempt.isResize ≤ 1 ∧
      (session.table.addElementNoting slot retries data).map Prod.fst id =
        session.table.addElementResizing slot retries data ∧
      session.table.addElementResizing slot retries data =
        if hash.HasRoom then
          (session.table.setStorage slot (.hash (hash.withElement element)), .ok ())
        else (session.table, .error .hashFull)) ∧
    ∀ request block, session.engine.Brings request slot [block] → request.command = .add →
      Engine.elementData block = .ok data → 1 ≤ session.engine.settings.maxResizeRetries.toNat →
        (session.engine.handle true request).1.table =
          (if hash.HasRoom then session.table.setStorage slot (.hash (hash.withElement element))
            else session.table) ∧
        (session.engine.handle true request).2.2.failure? =
          if hash.HasRoom then none else some (-4352) := by
  obtain ⟨entry, found, same⟩ := Option.map_eq_some_iff.mp stored
  have regular : hash.Regular entry.family := by
    have kept := reachable.regular slot entry found
    rwa [same] at kept
  have settles (retries : Nat) (retry : 1 ≤ retries) :
      (session.table.addElementNoting slot retries data).1.2.countP Table.Attempt.isResize ≤ 1 ∧
        session.table.addElementResizing slot retries data =
          if hash.HasRoom then
            (session.table.setStorage slot (.hash (hash.withElement element)), .ok ())
          else (session.table, .error .hashFull) := by
    obtain ⟨attempts, once, noted⟩ :=
      Table.addElementNoting_hash regular stored described fresh retry
    rw [← Table.addElementNoting_seen, noted]
    split
    · exact ⟨once, rfl⟩
    · exact ⟨once, rfl⟩
  refine ⟨hash.contains_withElement element, fun retries retry => ?_, ?_⟩
  · obtain ⟨once, settled⟩ := settles retries retry
    exact ⟨once, session.table.addElementNoting_seen slot retries data, settled⟩
  · intro request block brings adds read retry
    obtain ⟨-, settled⟩ := settles _ retry
    by_cases room : hash.HasRoom
    · rw [if_pos room] at settled ⊢
      rw [if_pos room]
      exact brings.handle_added adds read settled
    · rw [if_neg room] at settled ⊢
      rw [if_neg room]
      exact brings.handle_failing adds read settled nofun

def fillingUp : List (Operation Empty) :=
  .create smallest :: (List.range 64).map fun number => .addElement 0 [.ip (.v4 (.ofNat 32 number))]

/-- The smallest set of addresses with as many elements as it has room for. -/
def brimming : Session Empty := (fresh { maxSets := 4 } .builtin).run fillingUp

def entering : Request :=
  .compose .add 5 7 9 [.protocol protocolVersion, .setName memberName,
    .data (addressBlock (.v4 64)).raw]

/-- The set grows for one more element. -/
theorem adding_settles_brimming :
    ∃ hash, brimming.table.storage? 0 = some (.hash hash) ∧ hash.hashSize = 64 ∧
      hash.elements.length = 64 ∧
      brimming.table.addElementResizing 0 1 [.ip (.v4 64)] =
        (brimming.table.setStorage 0 (.hash (hash.withElement (.v4 64))), .ok ()) ∧
      (brimming.engine.handle true entering).1.table =
        brimming.table.setStorage 0 (.hash (hash.withElement (.v4 64))) := by
  have reachable : brimming.Reachable Unrestricted :=
    (Reachable.fresh Unrestricted _ _).run_unrestricted fillingUp
  -- All that is to be evaluated stands together, so that the run is evaluated once.
  obtain ⟨filled, found, retry⟩ :
      ((brimming.table.storage? 0).bind hash?).any (fun hash =>
        hash.hashSize = 64 ∧ hash.elements.length = 64 ∧ hash.HasRoom ∧
          hash.elementOfData [.ip (.v4 64)] = .ok (.v4 64) ∧ hash.contains (.v4 64) = false) ∧
      brimming.engine.table.find? memberName.text = some 0 ∧
      1 ≤ brimming.engine.settings.maxResizeRetries.toNat := by decide +kernel
  obtain ⟨hash, kept, holds⟩ := (Option.any_eq_true _ _).mp filled
  obtain ⟨storage, there, same⟩ := Option.bind_eq_some_iff.mp kept
  have stored : brimming.table.storage? 0 = some (.hash hash) :=
    there.trans (congrArg some (storage_of_hash same))
  obtain ⟨size, length, room, described, fresh⟩ := of_decide_eq_true holds
  obtain ⟨-, settles, answers⟩ := adding_settles reachable stored described fresh
  obtain ⟨-, -, settled⟩ := settles 1 (Nat.le_refl 1)
  have brings : brimming.engine.Brings entering 0 [(addressBlock (.v4 64)).raw] := {
    command := .inl rfl
    protocol := rfl
    named := ⟨memberName, rfl, found⟩
    listed := rfl }
  obtain ⟨entered, -⟩ := answers entering _ brings rfl (by decide +kernel) retry
  rw [if_pos room] at settled entered
  exact ⟨hash, stored, size, length, settled, entered⟩

end Session

end NamedSets
