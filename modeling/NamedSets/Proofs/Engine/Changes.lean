import NamedSets.Engine.Handler
import NamedSets.Proofs.Catalog
import NamedSets.Proofs.Table.Balance
import NamedSets.Proofs.Table.Courses

namespace NamedSets.Engine

open Message (Request)

variable {σ : Type} [ForeignStorage σ] {engine : Engine σ} {adds : Prop} {swapped : List String}

def swappedBy (request : Request) : List String :=
  if request.command = .swap then
    (request.setName?.toList ++ request.typeName?.toList).map (·.text)
  else []

/-- What a request, which may add elements and may exchange the sets of some names, can make of
an engine. -/
inductive Change (engine : Engine σ) (adds : Prop) (swapped : List String) : Engine σ → Prop
  | nothing : Change engine adds swapped engine
  | findType (name : String) (family : Family) (revision : UInt8) :
      Change engine adds swapped
        { engine with catalog := (engine.catalog.lookupOrLoad name family revision).1 }
  | findRevisions (name : String) (family : Family) :
      Change engine adds swapped
        { engine with catalog := (engine.catalog.revisionRangeOrLoad name family).1 }
  | create (creation : Table.Creation) {typeName : String} {revision : UInt8}
      {data : List Datum} {type : SetType σ} {storage : Storage σ}
      (known : (engine.catalog.lookupOrLoad typeName creation.family revision).2 = some type)
      (made : type.maker.make creation.family data = .ok storage) :
      Change engine adds swapped
        { engine with
          catalog := (engine.catalog.lookupOrLoad typeName creation.family revision).1
          table := (engine.table.create creation type storage).1 }
  | destroy (name : String) :
      Change engine adds swapped { engine with table := (engine.table.destroy name).1 }
  | destroyAll : Change engine adds swapped { engine with table := engine.table.destroyAll.1 }
  | flush (name : String) :
      Change engine adds swapped { engine with table := (engine.table.flush name).1 }
  | flushAll : Change engine adds swapped { engine with table := engine.table.flushAll }
  | rename (name : String) (newName : SetName) :
      Change engine adds swapped { engine with table := (engine.table.rename name newName).1 }
  | swap (name second : String) (named : name ∈ swapped) (secondNamed : second ∈ swapped) :
      Change engine adds swapped { engine with table := (engine.table.swap name second).1 }
  | addElements (allowed : adds) (slot retries position : Nat) (allowExisting : Bool)
      (blocks : List Attr.Raw) :
      Change engine adds swapped
        { engine with
          table := (applyBatch (fun table data => table.addElementResizing slot retries data)
            allowExisting position blocks engine.table).1 }
  | deleteElements (slot position : Nat) (allowExisting : Bool) (blocks : List Attr.Raw) :
      Change engine adds swapped
        { engine with
          table := (applyBatch (fun table data => table.deleteElement slot data)
            allowExisting position blocks engine.table).1 }
  | testElement (slot : Nat) (data : List Datum) :
      Change engine adds swapped { engine with table := (engine.table.testElement slot data).1 }

theorem create_change (engine : Engine σ) (creation : Creation) :
    engine.Change adds swapped (engine.create creation).1 := by
  cases found : (engine.catalog.lookupOrLoad creation.typeName creation.family
      creation.revision).2 with
  | none =>
      simp only [create, found]
      exact .findType _ _ _
  | some type =>
      cases made : type.maker.make creation.family creation.data with
      | error fault =>
          simp only [create, found, made]
          exact .findType _ _ _
      | ok storage =>
          simp only [create, found, made, withTable]
          exact .create {
            name := creation.name
            family := creation.family
            allowExisting := creation.allowExisting } found made

/-! ## Dumps that a request starts -/

omit [ForeignStorage σ] in
/-- A dump that has just been started is at the beginning of the set that it is asked for, or of
all sets. -/
theorem dumpOf_cases {request : Request} {dump : Dump}
    (started : engine.dumpOf request = .ok dump) :
    dump.cursor = none ∧ dump.finished = false ∧ dump.sequence = request.header.sequence ∧
      dump.sender = request.header.sender ∧
      ((request.setName? = none ∧ dump.mode = .all ∧ dump.slot = 0) ∨
        ∃ name, request.setName? = some name ∧ dump.mode = .one ∧
          engine.table.find? name.text = some dump.slot) := by
  unfold dumpOf Dump.start at started
  cases named : request.setName? with
  | none =>
      simp only [named] at started
      cases started
      exact ⟨rfl, rfl, rfl, rfl, .inl ⟨rfl, rfl, rfl⟩⟩
  | some name =>
      simp only [named] at started
      cases found : engine.table.find? name.text with
      | none => simp [found] at started
      | some slot =>
          simp only [found] at started
          cases started
          exact ⟨rfl, rfl, rfl, rfl, .inr ⟨name, rfl, rfl, found⟩⟩

omit [ForeignStorage σ] in
theorem startDump_dumpOf {privileged : Bool} {request : Request} {dump : Dump}
    (started : engine.startDump privileged request = .ok dump) :
    engine.dumpOf request = .ok dump := by
  unfold startDump at started
  split at started
  · contradiction
  · split at started
    · exact started
    · contradiction

theorem dispatch_dumpOf {request : Request} {dump : Dump}
    (produced : (engine.dispatch request).2.2 = .ok (.dump dump)) :
    (engine.dispatch request).1 = engine ∧ engine.dumpOf request = .ok dump ∧
      request.command.isDump := by
  have silent {α : Type} {product : α → Product} {result : Except Fault α}
      (other : ∀ value, product value ≠ .dump dump) : result.map product ≠ .ok (.dump dump) := by
    cases result with
    | error fault => simp [Except.map]
    | ok value => simpa [Except.map] using other value
  cases command : request.command with
  | list | save =>
      simp only [dispatch, command] at produced ⊢
      cases started : engine.dumpOf request with
      | error fault => simp [started, Except.map] at produced
      | ok other =>
          simp only [started, Except.map, Except.ok.injEq, Product.dump.injEq] at produced
          exact ⟨trivial, by rw [produced], rfl⟩
  | _ =>
      simp only [dispatch, command] at produced
      exact absurd produced (silent (by simp))

/-- A request that is answered by a dump changes nothing. -/
theorem handle_dumpOf {privileged : Bool} {request : Request} {dump : Dump}
    (answered : (engine.handle privileged request).2.2 = .dump dump) :
    (engine.handle privileged request).1 = engine ∧ engine.dumpOf request = .ok dump ∧
      request.command.isDump := by
  cases checked : check privileged request with
  | error fault => simp [handle, checked] at answered
  | ok allowed =>
      cases result : (engine.dispatch request).2.2 with
      | error fault => simp [handle, checked, result] at answered
      | ok product =>
          cases product with
          | dump other =>
              simp only [handle, checked, result, Answer.dump.injEq] at answered ⊢
              exact dispatch_dumpOf (answered ▸ result)
          | _ => simp [handle, checked, result] at answered

/-! ## What a change keeps -/

namespace Change

variable {after : Engine σ} {outside : List Nat} {closed : Prop}

theorem course (change : engine.Change adds swapped after) :
    Table.Course swapped engine.table after.table := by
  cases change with
  | nothing | findType name family revision | findRevisions name family =>
      exact .refl swapped engine.table
  | create creation known made => exact .create creation made
  | destroy name => exact .destroy name
  | destroyAll => exact .destroyAll
  | flush name => exact .edits .delete (Table.edits_flush engine.table name)
  | flushAll => exact .edits .delete (Table.edits_flushAll engine.table)
  | rename name newName => exact .rename name newName
  | swap name second named secondNamed => exact .swap name second named secondNamed
  | addElements allowed slot retries position allowExisting blocks =>
      exact .edits .add (Table.edits_applyBatch
        (fun table data => Table.edits_addElementResizing table slot retries data)
        position blocks engine.table)
  | deleteElements slot position allowExisting blocks =>
      exact .edits .delete (Table.edits_applyBatch
        (fun table data => Table.edits_deleteElement table slot data) position blocks engine.table)
  | testElement slot data => exact .edits .add (Table.edits_testElement engine.table slot data)

theorem catalog_preserves {kept : Catalog σ → Prop} (durable : Catalog.Durable kept)
    (change : engine.Change adds swapped after) (before : kept engine.catalog) :
    kept after.catalog := by
  cases change with
  | findType name family revision => exact durable.lookupOrLoad name family revision before
  | findRevisions name family => exact durable.revisionRangeOrLoad name family before
  | create creation known made => exact durable.lookupOrLoad _ _ _ before
  | _ => exact before

theorem builtin (change : engine.Change adds swapped after) (builtin : engine.catalog.Builtin) :
    after.catalog.Builtin :=
  change.catalog_preserves Catalog.Builtin.durable builtin

/-- As long as only built-in types are known, no storage from outside is made. -/
theorem noForeign (change : engine.Change adds swapped after) (builtin : engine.catalog.Builtin)
    (noForeign : engine.table.NoForeign) : after.table.NoForeign := by
  cases change with
  | nothing | findType name family revision | findRevisions name family => exact noForeign
  | create creation known made =>
      have type := (builtin.lookupOrLoad _ _ _).2 _ known
      exact noForeign.create creation (type.newSet made creation).1.not_foreign
  | destroy name => exact Table.Throughout.destroy noForeign name
  | destroyAll => exact Table.Throughout.destroyAll noForeign
  | flush name => exact noForeign.edits (Table.edits_flush engine.table name)
  | flushAll => exact noForeign.edits (Table.edits_flushAll engine.table)
  | rename name newName => exact Table.Throughout.rename noForeign name newName
  | swap name second named secondNamed => exact Table.Throughout.swap noForeign name second
  | addElements allowed slot retries position allowExisting blocks =>
      exact noForeign.edits (Table.edits_applyBatch
        (fun table data => Table.edits_addElementResizing table slot retries data)
        position blocks engine.table)
  | deleteElements slot position allowExisting blocks =>
      exact noForeign.edits (Table.edits_applyBatch
        (fun table data => Table.edits_deleteElement table slot data) position blocks engine.table)
  | testElement slot data =>
      have edits : Table.Edits .add engine.table (engine.table.testElement slot data).1 :=
        Table.edits_testElement engine.table slot data
      exact noForeign.edits edits

theorem sound (change : engine.Change adds swapped after)
    (sound : engine.table.Sound outside closed) (builtin : closed → engine.catalog.Builtin)
    (bounded : adds → after.table.Bounded outside) : after.table.Sound outside closed := by
  cases change with
  | nothing | findType name family revision | findRevisions name family => exact sound
  | create creation known made =>
      refine sound.create creation (fun isClosed => ?_) (Maker.members_make made)
      have type := ((builtin isClosed).lookupOrLoad _ _ _).2 _ known
      exact (type.newSet made creation).1
  | destroy name => exact sound.destroy name
  | destroyAll => exact sound.destroyAll
  | flush name => exact sound.flush name
  | flushAll => exact sound.flushAll
  | rename name newName => exact sound.renameSet name newName
  | swap name second named secondNamed => exact sound.swap name second
  | addElements allowed slot retries position allowExisting blocks =>
      exact applyBatch_preserves
        (fun table => table.Bounded outside → table.Sound outside closed)
        (fun table data before => Table.Sound.addElementResizing before)
        position blocks (fun _ => sound) (bounded allowed)
  | deleteElements slot position allowExisting blocks =>
      exact applyBatch_preserves (fun table => table.Sound outside closed)
        (fun table data before => before.deleteElement slot data) position blocks sound
  | testElement slot data => exact sound.testElement slot data

end Change

end NamedSets.Engine
