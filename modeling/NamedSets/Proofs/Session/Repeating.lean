import NamedSets.Proofs.Session.FailingLines
import NamedSets.Proofs.Table.Repeating

namespace NamedSets

open Table (Assures)

/-! ## Batches -/

namespace Engine

open Message (Request)

section Batches

variable {σ : Type} {change : Table σ → List Datum → Table σ × Except Fault Unit}
  {table after : Table σ} {slot retries : Nat} {block : Attr.Raw} {blocks : List Attr.Raw}

/-- A block that is carried out, although its element may have been there, brings the element. -/
theorem applyBlock_done (done : applyBlock change true block table = (after, .ok ())) :
    ∃ data, elementData block = .ok data ∧ Assures (change table data).2 ∧
      (change table data).1 = after := by
  cases read : elementData block with
  | error fault =>
      simp only [applyBlock, read] at done
      cases done
  | ok data =>
      refine ⟨data, rfl, ?_⟩
      cases outcome : change table data with
      | mk changed result =>
          simp only [applyBlock, read, outcome] at done
          cases result with
          | ok =>
              cases done
              refine ⟨?_, rfl⟩
              intro fault failed
              cases failed
          | error fault =>
              obtain ⟨rfl, excused⟩ := Prod.mk.inj done
              refine ⟨?_, rfl⟩
              intro other same
              cases same
              by_cases there : fault.errno = .element
              · exact there
              · simp [excuses, there] at excused

def HasAll (table : Table σ) (slot : Nat) (blocks : List Attr.Raw) : Prop :=
  ∀ block ∈ blocks, ∃ data, elementData block = .ok data ∧ table.Has slot data

variable [ForeignStorage σ]

/-- After a batch that was carried out the set has all elements of the batch. -/
theorem applyBatch_hasAll {position : Nat} (noForeign : table.NoForeign)
    (done : applyBatch (Table.addElementResizing · slot retries ·) true position blocks table =
      (after, .ok ())) : HasAll after slot blocks := by
  induction blocks generalizing position table with
  | nil => exact fun _ present => nomatch present
  | cons block rest ih =>
      rw [applyBatch_cons] at done
      cases applied : applyBlock (Table.addElementResizing · slot retries ·) true block table with
      | mk next result =>
          rw [applied] at done
          cases result with
          | error fault => cases done
          | ok =>
              simp only at done
              obtain ⟨data, read, assures, rfl⟩ := applyBlock_done applied
              have there := Table.addElementResizing_has noForeign assures
              -- The rest of the batch adds as well, and does not take the element away.
              have stays : (applyBatch (Table.addElementResizing · slot retries ·) true
                  (position + 1) rest _).1.Has slot data :=
                applyBatch_preserves (·.Has slot data)
                  (fun _ others has => has.addElementResizing retries others) _ rest there
              rw [done] at stays
              have others := ih
                (noForeign.edits (Table.edits_addElementResizing table slot retries data)) done
              exact List.forall_mem_cons.mpr ⟨⟨data, read, stays⟩, others⟩

/-- A batch whose elements are all there changes nothing. -/
theorem HasAll.applyBatch_eq {outside : List Nat} (has : HasAll table slot blocks)
    (sound : table.Sound outside) (room : table.Room) (position : Nat) :
    applyBatch (Table.addElementResizing · slot retries ·) true position blocks table =
      (table, .ok ()) := by
  induction blocks generalizing position with
  | nil => rfl
  | cons block rest ih =>
      obtain ⟨⟨data, read, there⟩, others⟩ := List.forall_mem_cons.mp has
      obtain ⟨fault, refused, errno⟩ := there.addElementResizing_refused sound room retries
      have excused : excuses true fault = true := by simp [excuses, errno]
      have applied : applyBlock (Table.addElementResizing · slot retries ·) true block table =
          (table, .ok ()) := by
        simp only [applyBlock, read, refused, excused, if_true]
      rw [applyBatch_cons, applied]
      exact ih others (position + 1)

end Batches

/-! ## Requests -/

variable {σ : Type} [ForeignStorage σ] {engine : Engine σ} {request : Request} {slot : Nat}
  {blocks : List Attr.Raw}

theorem changeBlocks_of_add (adds : request.command = .add)
    (allowed : request.header.allowsExisting = true) :
    engine.changeBlocks request slot blocks =
      applyBatch (Table.addElementResizing · slot engine.settings.maxResizeRetries.toNat ·) true 0
        blocks engine.table := by
  have change : engine.elementChange request slot =
      (Table.addElementResizing · slot engine.settings.maxResizeRetries.toNat ·) := by
    funext table data
    rw [elementChange, if_pos adds]
  rw [changeBlocks, change, allowed]

end Engine

namespace Session

open Message (Argument Request)

variable {σ : Type} [ForeignStorage σ] {session : Session σ} {privileged : Bool}
  {request : Request}

/-- A request to add elements, which may be there already, that was answered without an error is
answered without an error when it is sent again, and leaves the whole session as it is then: the
elements and members of every set with their order, the sizes of all hashes and all references. -/
theorem adding_again_harmless (reachable : session.Reachable Balanced)
    (balanced : session.Balanced (.request privileged request)) (adds : request.command = .add)
    (allowed : request.header.allowsExisting = true)
    (done : (session.engine.handle privileged request).2.2.failure? = none) :
    ((session.after (.request privileged request)).engine.handle privileged request).2.2.failure? =
        none ∧
      (session.after (.request privileged request)).after (.request privileged request) =
        session.after (.request privileged request) := by
  obtain ⟨rfl, slot, blocks, table, brings, applied⟩ := Engine.exists_brings (.inl adds) done
  have first := brings.handle_eq applied
  have once : session.after (.request true request) =
      { session with engine := { session.engine with table } } := by
    simp only [Session.after, first]
  -- The accounts are sound afterwards, with room for the reference that every add takes first.
  have sound := (reachable.after _ balanced).sound
  have taken : (Operation.request true request : Operation σ).taken = 1 := if_pos adds
  have bound := balanced.after true request rfl
  rw [taken] at bound
  have room := sound.room Nat.one_pos bound
  have accounts := sound.table
  rw [once] at accounts room
  -- The set has all elements now, and is found again under its name.
  have noForeign : session.table.NoForeign :=
    fun _ _ found _ => reachable.sound.table.not_foreign found
  have same : Table.SameLabels session.engine.table table := by
    obtain ⟨kind, edits⟩ := session.engine.edits_changeBlocks request slot blocks
    rw [applied] at edits
    exact .of_edits edits
  rw [Engine.changeBlocks_of_add adds allowed] at applied
  have has := Engine.applyBatch_hasAll noForeign applied
  have again : ({ session.engine with table } : Engine σ).changeBlocks request slot blocks =
      (table, .ok ()) := by
    rw [Engine.changeBlocks_of_add adds allowed]
    exact has.applyBatch_eq accounts room 0
  have second := (brings.of_sameLabels same).handle_eq again
  rw [once]
  constructor
  · rw [second, ← done, first]
  · simp only [Session.after, second]

def insisting : Request :=
  .compose .add 5 5 9 [.protocol protocolVersion, .setName memberName, .lineNumber 7,
    .batch (Attr.Tree.block Argument.batchNumber
      [addressBlock (.v4 10), addressBlock (.v4 11), addressBlock (.v4 10)]).raw]

/-- The address that is named twice is added once, and neither of them again. -/
theorem adding_again_harmless_shared :
    shared.Reachable Balanced ∧ shared.Balanced (.request true insisting) ∧
      insisting.command = .add ∧ insisting.header.allowsExisting = true ∧
      (shared.engine.handle true insisting).2.2.failure? = none ∧
      ((shared.after (.request true insisting)).engine.handle true insisting).2.2.failure? = none ∧
      (shared.after (.request true insisting)).after (.request true insisting) =
        shared.after (.request true insisting) := by
  have fair : shared.Fair (.request true insisting) := .of_few nofun (by decide +kernel)
  have balanced : shared.Balanced (.request true insisting) :=
    ⟨fair.released, nofun, fair.before, fair.after⟩
  have allowed : insisting.header.allowsExisting = true := by decide
  have done : (shared.engine.handle true insisting).2.2.failure? = none := by decide +kernel
  exact ⟨shared_reachable, balanced, rfl, allowed, done,
    adding_again_harmless shared_reachable balanced rfl allowed done⟩

end Session

end NamedSets
