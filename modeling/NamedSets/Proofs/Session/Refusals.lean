import NamedSets.Proofs.Engine.Batches
import NamedSets.Proofs.Engine.Outcomes
import NamedSets.Proofs.Session.Restoring
import NamedSets.Proofs.Table.Refusals

namespace NamedSets

namespace Engine

open Message (Request Report)

variable {σ : Type} {engine after : Engine σ} {request : Request}
  {outside : List Nat} {fault : Fault}

theorem blocksOf_single {blocks : List Attr.Raw} (single : request.batch? = none)
    (listed : blocksOf request = .ok blocks) :
    ∃ block, request.data? = some block ∧ blocks = [block] := by
  unfold blocksOf at listed
  rw [single] at listed
  split at listed
  · rename_i block given _
    cases listed
    exact ⟨block, given, rfl⟩
  · contradiction
  · contradiction

variable [ForeignStorage σ]

theorem elementChange_refused (sound : engine.table.Sound outside)
    (regular : engine.table.Throughout fun family storage => storage.Regular family)
    (room : request.command = .add → engine.table.Room) {slot : Nat} {data : List Datum}
    (refused : (engine.elementChange request slot engine.table data).2 = .error fault) :
    (engine.elementChange request slot engine.table data).1 = engine.table := by
  unfold elementChange at refused ⊢
  split at refused
  · rename_i adds
    rw [if_pos adds]
    exact Table.addElementResizing_refused sound (room adds) regular refused
  · rename_i deletes
    rw [if_neg deletes]
    exact Table.deleteElement_refused sound refused

theorem changeBlocks_refused (sound : engine.table.Sound outside)
    (regular : engine.table.Throughout fun family storage => storage.Regular family)
    (room : request.command = .add → engine.table.Room) {slot : Nat} {block : Attr.Raw}
    {failure : Failure} (refused : (engine.changeBlocks request slot [block]).2 = .error failure) :
    (engine.changeBlocks request slot [block]).1 = engine.table := by
  unfold changeBlocks at refused ⊢
  rw [applyBatch_cons] at refused ⊢
  cases applied : applyBlock (engine.elementChange request slot) request.header.allowsExisting
      block engine.table with
  | mk after result =>
      rw [applied] at refused
      cases result with
      | ok => cases refused
      | error fault =>
          have unchanged := applyBlock_refused
            (fun _ _ => elementChange_refused sound regular room) (congrArg Prod.snd applied)
          rwa [applied] at unchanged

theorem create_refused {creation : Creation} (refused : (engine.create creation).2 = .error fault) :
    (engine.create creation).1.table = engine.table := by
  obtain ⟨_, unchanged, -⟩ | ⟨type, storage, -, -, created, answered⟩ :=
    engine.create_cases creation
  · exact unchanged
  · rw [created]
    exact Table.create_refused (answered ▸ refused)

/-- What fails leaves the table as it was. -/
theorem Outcome.refused {result : Except Fault Unit} (outcome : engine.Outcome request after result)
    (failed : result = .error fault) (sound : engine.table.Sound outside)
    (regular : engine.table.Throughout fun family storage => storage.Regular family)
    (room : request.command = .add → engine.table.Room)
    (single : request.command = .add ∨ request.command = .delete → request.batch? = none) :
    after.table = engine.table := by
  cases outcome with
  | unchanged => rfl
  | findRevisions name family => rfl
  | create creation =>
      cases answered : (engine.create creation).2 with
      | ok slot => simp [answered, Except.map] at failed
      | error reason => exact create_refused answered
  | destroy asked named => exact Table.destroy_refused failed
  | destroyAll asked unnamed => exact Table.destroyAll_refused failed
  | flush name => exact Table.flush_refused failed
  | flushAll => cases failed
  | rename asked named newName => exact Table.rename_refused failed
  | swap asked named secondNamed => exact Table.swap_refused failed
  | changeBlocks asked listed slot =>
      obtain ⟨block, -, rfl⟩ := blocksOf_single (single asked) listed
      cases outcome : (engine.changeBlocks request slot [block]).2 with
      | ok => simp [outcome, Except.mapError] at failed
      | error failure => exact changeBlocks_refused sound regular room outcome
  | test slot data result => exact sound.testElement_eq slot data

end Engine

namespace Session

variable {σ : Type} [ForeignStorage σ] {session : Session σ} {privileged : Bool}
  {request : Message.Request} {code : Int32}

/-- A request that is answered by a failure leaves the table as it was, elements, references and
sizes included, unless it adds or deletes a batch of elements. -/
theorem refused_request_harmless (reachable : session.Reachable Balanced)
    (room : ∀ slot, session.references slot +
      (Operation.request privileged request : Operation σ).taken < UInt32.size)
    (single : request.command = .add ∨ request.command = .delete → request.batch? = none)
    (refused : (session.engine.handle privileged request).2.2.failure? = some code) :
    (session.engine.handle privileged request).1.table = session.table := by
  have sound := reachable.sound
  have enough (adds : request.command = .add) : session.table.Room := by
    have taken : (Operation.request privileged request : Operation σ).taken = 1 := if_pos adds
    rw [taken] at room
    exact sound.room Nat.one_pos room
  obtain ⟨result, outcome, answered⟩ := session.engine.handle_outcome privileged request
  cases result with
  | ok => simp [answered] at refused
  | error fault => exact outcome.refused rfl sound.table reachable.regular enough single

def selfListing : Message.Request where
  header := { length := 52, messageType := 0x609, flags := 5, sequence := 5, sender := 9 }
  body := { family := 0, version := 0, resource := 0 }
  command := .add
  arguments := [.protocol protocolVersion, .setName listName,
    .data (Message.Argument.dataBlock [.name listName]).raw]
  raw := []

/-- The list takes a reference to itself and gives it back. -/
theorem refused_request_harmless_shared :
    shared.Reachable Balanced ∧
      (∀ slot, shared.references slot +
        (Operation.request true selfListing : Operation Empty).taken < UInt32.size) ∧
      selfListing.batch? = none ∧
      (shared.engine.handle true selfListing).2.2.failure? =
        some (Message.Report.failure .listInList) ∧
      (shared.engine.handle true selfListing).1.table = shared.table := by
  have room (slot : Nat) : shared.references slot +
      (Operation.request true selfListing : Operation Empty).taken < UInt32.size := by
    have few : shared.table.capacity + shared.dumps.length + shared.holds.length + 1 <
        UInt32.size := by decide +kernel
    have bound := shared.references_le slot
    have taken : (Operation.request true selfListing : Operation Empty).taken = 1 := rfl
    omega
  have refused : (shared.engine.handle true selfListing).2.2.failure? =
      some (Message.Report.failure .listInList) := by
    decide +kernel
  exact ⟨shared_reachable, room, rfl, refused,
    refused_request_harmless shared_reachable room (fun _ => rfl) refused⟩

end Session

end NamedSets
