import NamedSets.Proofs.Engine.Outcomes
import NamedSets.Proofs.Session.FailingLines
import NamedSets.Proofs.Session.History
import NamedSets.Proofs.Table.Lives

/-!
# Creating a set again

Whoever creates a set again and does not mind that it exists finds it, as long as it is what the
creation asks for. A set of a built-in type is so for all its life, except that a hash which has
grown is not taken for the one that the creation asks for.
-/

namespace NamedSets

/-! ## Operations that spare a set -/

namespace Engine

open Message (Request)

variable {σ : Type} {engine after : Engine σ} {request : Request} {id : Nat}
  {entry : Entry σ}

/-- A request neither removes nor renames nor exchanges the set of a name. -/
structure Spares (request : Request) (name : String) : Prop where
  destroy : request.command = .destroy → ∃ other, request.setName? = some other ∧ other.text ≠ name
  rename : request.command = .rename → ∀ other, request.setName? = some other → other.text ≠ name
  swap : request.command = .swap → ∀ other, request.setName? = some other ∨
    request.typeName? = some other → other.text ≠ name

theorem continues_create [ForeignStorage σ] (found : engine.table.get? id = some entry)
    (creation : Creation) : engine.table.Continues (engine.create creation).1.table id := by
  obtain ⟨_, unchanged, -⟩ | ⟨type, storage, -, -, created, -⟩ := engine.create_cases creation
  · rw [unchanged]
    exact .refl engine.table id
  · rw [created]
    exact .create found creation.forTable type storage

theorem Outcome.continues [ForeignStorage σ] {result : Except Fault Unit}
    (outcome : engine.Outcome request after result) (found : engine.table.get? id = some entry)
    (spares : Spares request entry.name.text) : engine.table.Continues after.table id := by
  cases outcome with
  | unchanged => exact .refl engine.table id
  | findRevisions name family => exact .refl engine.table id
  | create creation => exact continues_create found creation
  | destroy asked named =>
      obtain ⟨other, same, apart⟩ := spares.destroy asked
      cases named.symm.trans same
      exact .destroy found apart
  | destroyAll asked unnamed =>
      obtain ⟨other, named, -⟩ := spares.destroy asked
      cases unnamed.symm.trans named
  | flush name => exact .edits (Table.edits_flush engine.table name)
  | flushAll => exact .edits (Table.edits_flushAll engine.table)
  | rename asked named newName => exact .rename found (spares.rename asked _ named) newName
  | swap asked named secondNamed =>
      exact .swap found (spares.swap asked _ (.inl named)) (spares.swap asked _ (.inr secondNamed))
  | @changeBlocks blocks asked listed slot =>
      obtain ⟨kind, edits⟩ := engine.edits_changeBlocks request slot blocks
      exact .edits edits
  | test slot data result =>
      have edits : Table.Edits .add engine.table (engine.table.testElement slot data).1 :=
        Table.edits_testElement engine.table slot data
      exact .edits edits

end Engine

def Operation.Spares {σ : Type} (name : String) : Operation σ → Prop
  | .request _ asked => Engine.Spares asked name
  | .destroy other => other ≠ name
  | .destroyAll => False
  | .rename other _ => other ≠ name
  | .swap first second => first ≠ name ∧ second ≠ name
  | _ => True

def Operation.Builtin {σ : Type} (operation : Operation σ) : Prop :=
  ∀ type, operation = .register type → type.Builtin

/-! ## What operations keep -/

namespace Session

variable {σ : Type} [ForeignStorage σ] {session start : Session σ} {operation : Operation σ}
  {operations : List (Operation σ)} {id slot : Nat} {entry : Entry σ}

theorem supplied_after (supplied : session.engine.catalog.Supplied) (builtin : operation.Builtin) :
    (session.after operation).engine.catalog.Supplied :=
  catalog_preserves Catalog.Supplied.durable
    (fun type _ same accepted => supplied.register (builtin type same) accepted) supplied

theorem continues_after (found : session.table.get? id = some entry)
    (spares : operation.Spares entry.name.text) :
    session.table.Continues (session.after operation).table id := by
  by_cases ordinary : operation.Ordinary
  · obtain ⟨kind, edits⟩ := session.after_edits ordinary
    exact .edits edits
  · cases operation with
    | request privileged request =>
        obtain ⟨result, outcome, -⟩ := session.engine.handle_outcome privileged request
        have continues := outcome.continues found spares
        rwa [← engine_after_request] at continues
    | create creation =>
        exact Engine.continues_create found creation
    | destroy name => exact .destroy found spares
    | destroyAll => exact spares.elim
    | rename name newName => exact .rename found spares newName
    | swap name second => exact .swap found spares.1 spares.2
    | _ => exact absurd trivial ordinary

theorem continues_run (found : session.table.get? id = some entry)
    (spared : ∀ operation ∈ operations, operation.Spares entry.name.text) :
    ∃ later, (session.run operations).table.get? id = some later ∧ entry.Continues later := by
  induction operations generalizing session entry with
  | nil => exact ⟨entry, found, .refl entry⟩
  | cons operation rest ih =>
      obtain ⟨first, others⟩ := List.forall_mem_cons.mp spared
      obtain ⟨next, there, continues⟩ := continues_after found first entry found
      -- A set that lives on has the name that the other operations spare.
      rw [← continues.name] at others
      obtain ⟨later, present, further⟩ := ih there others
      exact ⟨later, present, continues.trans further⟩

theorem supplied_run (supplied : session.engine.catalog.Supplied)
    (builtin : ∀ operation ∈ operations, operation.Builtin) :
    (session.run operations).engine.catalog.Supplied := by
  induction operations generalizing session with
  | nil => exact supplied
  | cons operation rest ih =>
      obtain ⟨first, others⟩ := List.forall_mem_cons.mp builtin
      exact ih (supplied_after supplied first) others

theorem Reachable.run_unrestricted (reachable : session.Reachable Unrestricted)
    (operations : List (Operation σ)) : (session.run operations).Reachable Unrestricted := by
  induction operations generalizing session with
  | nil => exact reachable
  | cons operation rest ih => exact ih (reachable.after operation trivial)

end Session

/-! ## Creations -/

section Creations

variable {σ : Type} [ForeignStorage σ] {engine : Engine σ} {creation : Engine.Creation}
  {type : SetType σ} {storage : Storage σ} {entry later : Entry σ} {slot : Nat}

theorem Storage.sameParameters_self (builtin : ∀ inner, storage ≠ .foreign inner) :
    storage.sameParameters storage = true := by
  cases storage with
  | hash hash => simp [sameParameters, AddressHash.sameParameters]
  | list list => simp [sameParameters, SetList.sameParameters]
  | foreign inner => exact absurd rfl (builtin inner)

/-- A set that has lived on is what was asked for as long as its size is the same. -/
theorem Entry.Continues.isMetBy {creation : Table.Creation} (continues : entry.Continues later)
    (builtin : ∀ inner, storage ≠ .foreign inner)
    (met : creation.isMetBy type storage entry = true) :
    creation.isMetBy type storage later =
      decide (later.storage.hashSize? = entry.storage.hashSize?) := by
  unfold Table.Creation.isMetBy at met ⊢
  simp only [Bool.and_eq_true] at met
  obtain ⟨labels, same⟩ := met
  rw [continues.storage.sameParameters builtin same, continues.type, continues.family]
  simp only [labels, Bool.true_and]

/-- The creation of the same set by somebody who does not mind that it exists. -/
def Engine.Creation.again (creation : Engine.Creation) : Engine.Creation :=
  { creation with allowExisting := true }

theorem Engine.Creation.again_isMetBy (creation : Engine.Creation)
    (met : creation.forTable.isMetBy type storage entry = true) :
    creation.again.forTable.isMetBy type storage entry = true := by
  unfold Table.Creation.isMetBy at met ⊢
  simp only [Bool.and_eq_true] at met ⊢
  obtain ⟨⟨⟨⟨-, name⟩, family⟩, revision⟩, same⟩ := met
  exact ⟨⟨⟨⟨rfl, name⟩, family⟩, revision⟩, same⟩

theorem Engine.Creation.again_isMetBy_newSet (creation : Engine.Creation)
    (builtin : ∀ inner, storage ≠ .foreign inner) :
    creation.again.forTable.isMetBy type storage (creation.forTable.newSet type storage) =
      true := by
  simp [Table.Creation.isMetBy, Table.Creation.newSet, again, forTable,
    Storage.sameParameters_self builtin]

/-- The set that a creation answers is one that it asks for. -/
theorem Engine.created_isMetBy (builtin : engine.catalog.Builtin)
    (answered : (engine.create creation).2 = .ok slot) :
    ∃ type storage entry,
      (engine.catalog.lookupOrLoad creation.typeName creation.family creation.revision).2 =
        some type ∧
      type.maker.make creation.family creation.data = .ok storage ∧
      (∀ inner, storage ≠ .foreign inner) ∧
      (engine.create creation).1.table.get? slot = some entry ∧
      entry.name.text = creation.name.text ∧
      creation.again.forTable.isMetBy type storage entry = true := by
  obtain ⟨fault, -, refused⟩ | ⟨type, storage, known, made, created, same⟩ :=
    engine.create_cases creation
  · rw [refused] at answered
    cases answered
  · have own : ∀ inner, storage ≠ .foreign inner := by
      rintro inner rfl
      have brought := (builtin.lookupOrLoad _ _ _).2 type known
      exact (brought.newSet made creation.forTable).1
    rw [same] at answered
    rw [created]
    obtain ⟨id, entry, found, outcome⟩ | ⟨-, -, refused⟩ | ⟨id, -, free, outcome⟩ :=
      Table.create_cases engine.table creation.forTable type storage
    · rw [outcome] at answered ⊢
      obtain ⟨-, occupied, named⟩ := Table.get_of_lookup found
      dsimp only at answered
      split at answered
      · rename_i met
        cases answered
        exact ⟨type, storage, entry, known, made, own, occupied, named, creation.again_isMetBy met⟩
      · cases answered
    · rw [refused] at answered
      cases answered
    · rw [outcome] at answered ⊢
      cases answered
      have inside := (Table.get_eq_none_of_free free).2.1
      refine ⟨type, storage, creation.forTable.newSet type storage, known, made, own, ?_, rfl, ?_⟩
      · rw [Table.get_set_inside inside, if_pos rfl]
      · exact creation.again_isMetBy_newSet own

theorem Engine.create_existing (creation : Engine.Creation)
    (known : (engine.catalog.lookupOrLoad creation.typeName
      creation.family creation.revision).2 = some type)
    (made : type.maker.make creation.family creation.data = .ok storage)
    (found : engine.table.lookup? creation.name.text = some (slot, entry)) :
    (engine.create creation).1.table = engine.table ∧
      (engine.create creation).2 =
        if creation.forTable.isMetBy type storage entry then .ok slot else .error .setExists := by
  have there : engine.table.lookup? creation.forTable.name.text = some (slot, entry) := found
  obtain ⟨table, answer⟩ := create_made known made
  rw [table, answer, Table.create_found there]
  exact ⟨rfl, rfl⟩

end Creations

/-! ## Creating again -/

namespace Session

open Message (Segment)

variable {σ : Type} [ForeignStorage σ] {settings : Settings} {loader : Loader}
  {earlier operations : List (Operation σ)} {creation : Engine.Creation} {slot : Nat}

/-- A set that was created and has been neither removed, renamed nor exchanged since is found by
the same creation, and the table stays as it is, unless the set is a hash that has grown. -/
theorem recreation_decided (loads : ∀ name, loader.supplies name = true)
    (builtin : ∀ operation ∈ earlier ++ operations, operation.Builtin)
    (answered : (((fresh settings loader).run earlier).engine.create creation).2 = .ok slot)
    (spared : ∀ operation ∈ operations, operation.Spares creation.name.text) :
    let made := ((fresh settings loader).run earlier).after (.create creation)
    let later := made.run operations
    ∃ first last, made.table.get? slot = some first ∧ later.table.get? slot = some last ∧
      first.Continues last ∧
      (later.engine.create creation.again).1.table = later.table ∧
      (later.engine.create creation.again).2 =
        if last.storage.hashSize? = first.storage.hashSize? then .ok slot
        else .error .setExists := by
  intro made later
  have start : (fresh settings loader : Session σ).engine.catalog.Supplied :=
    ⟨fun _ among => (List.not_mem_nil among).elim, loads⟩
  obtain ⟨builtinEarlier, builtinLater⟩ := List.forall_mem_append.mp builtin
  have before := supplied_run start builtinEarlier
  obtain ⟨type, storage, first, known, asked, own, found, named, met⟩ :=
    Engine.created_isMetBy before.builtin answered
  have stays : made.engine.catalog.Supplied := supplied_after before fun _ => nofun
  have still := before.lookupOrLoad_again (supplied_run stays builtinLater) known
  obtain ⟨last, there, continues⟩ : ∃ last, later.table.get? slot = some last ∧
      first.Continues last := continues_run found (by rwa [named])
  have reachable : later.Reachable Unrestricted :=
    (((Reachable.fresh Unrestricted settings loader).run_unrestricted earlier).after
      (.create creation) trivial).run_unrestricted operations
  have looked : later.engine.table.lookup? creation.again.name.text = some (slot, last) :=
    reachable.namesDistinct.lookup_iff.mpr
      ⟨there, (congrArg SetName.text continues.name).trans named⟩
  obtain ⟨unchanged, answer⟩ := Engine.create_existing creation.again still asked looked
  refine ⟨first, last, found, there, continues, unchanged, ?_⟩
  rw [answer, continues.isMetBy own met]
  simp only [decide_eq_true_eq]

def smallest : Engine.Creation where
  name := memberName
  typeName := "hash:ip"
  family := .ipv4
  revision := 0
  data := [.hashSize 64]
  allowExisting := false

/-- Adding to the set and emptying it leaves it what was asked for. -/
theorem recreation_decided_smallest :
    let before : Session Empty :=
      (fresh { maxSets := 4 } .builtin).run [creating listName "list:set"]
    let later := (before.after (.create smallest)).run
      [.request true (adding repeated), .addElement 1 [.ip (.v4 11)], .flush "m"]
    (before.engine.create smallest).2 = .ok 1 ∧
      (later.engine.create smallest.again).1.table = later.table ∧
      (later.engine.create smallest.again).2 = .ok 1 := by
  intro before later
  have answered : (before.engine.create smallest).2 = .ok 1 := by decide +kernel
  have spared : ∀ operation ∈ ([.request true (adding repeated), .addElement 1 [.ip (.v4 11)],
      .flush "m"] : List (Operation Empty)), operation.Spares smallest.name.text := by
    simp only [List.forall_mem_cons, Operation.Spares, List.not_mem_nil, false_imp_iff,
      implies_true, and_true]
    exact ⟨nofun, nofun, nofun⟩
  obtain ⟨first, last, there, present, -, unchanged, answer⟩ :=
    recreation_decided (fun _ => rfl) (by simp [Operation.Builtin, creating]) answered spared
  have size : (later.table.get? 1).map (·.storage.hashSize?) =
      ((before.after (.create smallest)).table.get? 1).map (·.storage.hashSize?) := by
    decide +kernel
  rw [there, present] at size
  exact ⟨answered, unchanged, answer.trans (if_pos (Option.some.inj size))⟩

/-- The addresses of a batch that is one more than the smallest set holds. -/
def crowd : List Attr.Tree :=
  (List.range 65).map fun number => addressBlock (.v4 (.ofNat 32 number))

/-- The set has grown for the last element of a batch, and is not found any more by the creation
that made it. -/
theorem grown_not_found :
    let made : Session Empty := (fresh { maxSets := 4 } .builtin).after (.create smallest)
    let grown := made.after (.request true (adding crowd))
    ((fresh { maxSets := 4 } .builtin : Session Empty).engine.create smallest).2 = .ok 0 ∧
      Segment.readAll (adding crowd).raw = .ok [.request (adding crowd)] ∧
      (made.engine.handle true (adding crowd)).2.2.failure? = none ∧
      (grown.engine.create smallest.again).2 = .error .setExists := by
  decide +kernel

end Session

end NamedSets
