import NamedSets.Catalog
import NamedSets.Proofs.Table.Accounts

namespace NamedSets

variable {σ : Type}

def SetType.Builtin (type : SetType σ) : Prop := type = .addressHash ∨ type = .setList

theorem SetType.builtin_of_name {name : String} {type : SetType σ}
    (found : SetType.builtin? name = some type) : type.Builtin := by
  unfold builtin? at found
  split at found
  · cases found
    exact .inl rfl
  · split at found
    · cases found
      exact .inr rfl
    · contradiction

theorem SetType.Builtin.builtin_name {type : SetType σ} (builtin : type.Builtin) :
    SetType.builtin? type.name = some type := by
  rcases builtin with rfl | rfl <;> rfl

theorem SetType.Builtin.eq_of_name {type other : SetType σ} (builtin : type.Builtin)
    (known : other.Builtin) (same : other.name = type.name) : other = type := by
  have found := known.builtin_name
  rw [same, builtin.builtin_name] at found
  exact (Option.some.inj found).symm

/-- Built-in types serve all families. -/
theorem SetType.Builtin.serves {type : SetType σ} (builtin : type.Builtin) (family : Family) :
    type.serves type.name family = true := by
  rcases builtin with rfl | rfl <;> simp [SetType.serves, addressHash, setList, Family.accepts]

/-- A storage that was just made refers to no slot. -/
theorem Maker.members_make [ForeignStorage σ] {maker : Maker σ} {storage : Storage σ}
    {family : Family} {data : List Datum} (made : maker.make family data = .ok storage) :
    storage.members = [] := by
  unfold Maker.make at made
  split at made
  · split at made <;> cases made
    rfl
  · cases made
    rfl
  · split at made <;> cases made
    rfl

/-- The set that a creation makes of a built-in type has the storage of its type. -/
theorem SetType.Builtin.newSet [ForeignStorage σ] {type : SetType σ} {storage : Storage σ}
    {family : Family} {data : List Datum} (builtin : type.Builtin)
    (made : type.maker.make family data = .ok storage) (creation : Table.Creation) :
    (creation.newSet type storage).Builtin ∧ storage.members = [] := by
  refine ⟨?_, Maker.members_make made⟩
  rcases builtin with rfl | rfl
  · cases created : AddressHash.create family data with
    | error fault => simp [addressHash, Maker.make, created] at made
    | ok hash =>
        simp only [addressHash, Maker.make, created] at made
        cases made
        rfl
  · cases made
    rfl

namespace Catalog

variable {catalog : Catalog σ} {type : SetType σ} {name : String} {family : Family}
  {revision : UInt8}

def Builtin (catalog : Catalog σ) : Prop := ∀ type ∈ catalog.types, type.Builtin

/-- Something that a catalog keeps when types are removed from it and looked up in it. -/
structure Durable (kept : Catalog σ → Prop) : Prop where
  unregister : ∀ {catalog left : Catalog σ} {name : String} {family : Family} {revision : UInt8}
    {type : SetType σ}, kept catalog →
      catalog.unregister name family revision = .ok (left, type) → kept left
  lookupOrLoad : ∀ {catalog : Catalog σ} (name : String) (family : Family) (revision : UInt8),
    kept catalog → kept (catalog.lookupOrLoad name family revision).1
  revisionRangeOrLoad : ∀ {catalog : Catalog σ} (name : String) (family : Family),
    kept catalog → kept (catalog.revisionRangeOrLoad name family).1

namespace Builtin

theorem lookup (builtin : catalog.Builtin)
    (found : catalog.lookup name family revision = some type) : type.Builtin :=
  builtin type (List.mem_of_find?_eq_some found)

theorem register {registered : Catalog σ} (builtin : catalog.Builtin) (new : type.Builtin)
    (accepted : catalog.register type = .ok registered) : registered.Builtin := by
  unfold Catalog.register at accepted
  split at accepted
  · contradiction
  · split at accepted
    · contradiction
    · cases accepted
      intro other present
      rcases List.mem_append.mp present with before | last
      · exact builtin other before
      · rw [List.mem_singleton.mp last]
        exact new

theorem unregister {left : Catalog σ} (builtin : catalog.Builtin)
    (removed : catalog.unregister name family revision = .ok (left, type)) : left.Builtin := by
  unfold Catalog.unregister at removed
  split at removed
  · cases removed
    exact fun other present => builtin other (List.mem_of_mem_eraseP present)
  · contradiction

theorem loadBuiltin (builtin : catalog.Builtin) (name : String) :
    (catalog.loadBuiltin name).Builtin := by
  unfold Catalog.loadBuiltin
  cases known : SetType.builtin? name with
  | none => exact builtin
  | some type =>
      cases accepted : catalog.register type with
      | ok loaded => simpa only [accepted] using
          builtin.register (SetType.builtin_of_name known) accepted
      | error fault => simpa only [accepted] using builtin

theorem load (builtin : catalog.Builtin) (name : String) : (catalog.load name).Builtin := by
  have asked : Builtin { catalog with loader := catalog.loader.ask name } := builtin
  unfold Catalog.load
  split
  · exact asked.loadBuiltin name
  · exact asked

theorem lookupOrLoad (builtin : catalog.Builtin) (name : String) (family : Family)
    (revision : UInt8) : (catalog.lookupOrLoad name family revision).1.Builtin ∧
      ∀ type, (catalog.lookupOrLoad name family revision).2 = some type → type.Builtin := by
  unfold Catalog.lookupOrLoad
  split
  · rename_i found
    refine ⟨builtin, fun other same => ?_⟩
    cases same
    exact builtin.lookup found
  · have loaded := builtin.load name
    exact ⟨loaded, fun other found => loaded.lookup found⟩

theorem revisionRangeOrLoad (builtin : catalog.Builtin) (name : String) (family : Family) :
    (catalog.revisionRangeOrLoad name family).1.Builtin := by
  unfold Catalog.revisionRangeOrLoad
  split
  · exact builtin
  · exact builtin.load name

theorem durable : Durable fun catalog : Catalog σ => catalog.Builtin where
  unregister builtin removed := builtin.unregister removed
  lookupOrLoad name family revision builtin := (builtin.lookupOrLoad name family revision).1
  revisionRangeOrLoad name family builtin := builtin.revisionRangeOrLoad name family

/-- Nothing but the type itself is found under the name of a built-in type. -/
theorem lookup_name (builtin : catalog.Builtin) (known : type.Builtin) (family : Family) :
    catalog.lookup type.name family type.revision = some type ∨
      catalog.lookup type.name family type.revision = none ∧ type ∉ catalog.types := by
  cases found : catalog.lookup type.name family type.revision with
  | some other =>
      have accepted := List.find?_some found
      simp only [SetType.serves, Bool.and_eq_true, decide_eq_true_eq] at accepted
      rw [known.eq_of_name (builtin.lookup found) accepted.1.1]
      exact .inl rfl
  | none =>
      refine .inr ⟨rfl, fun present => ?_⟩
      have refused := List.find?_eq_none.mp found type present
      simp [known.serves family] at refused

theorem lookup_loadBuiltin (builtin : catalog.Builtin) (known : type.Builtin)
    (absent : type ∉ catalog.types) (family : Family) :
    (catalog.loadBuiltin type.name).lookup type.name family type.revision = some type := by
  have missing (family : Family) : catalog.lookup type.name family type.revision = none := by
    obtain found | ⟨missing, -⟩ := builtin.lookup_name known family
    · exact absurd (List.mem_of_find?_eq_some found) absent
    · exact missing
  have current : type.protocol = protocolVersion := by
    rcases known with rfl | rfl <;> rfl
  have registered : catalog.register type =
      .ok { catalog with types := catalog.types ++ [type] } := by
    simp [Catalog.register, current, missing]
  have itself : [type].find? (fun other => other.serves type.name family &&
      other.revision = type.revision) = some type := by
    simp [known.serves family]
  have before := missing family
  unfold Catalog.lookup at before
  simp only [Catalog.loadBuiltin, known.builtin_name, registered, Catalog.lookup,
    List.find?_append, before, itself]
  rfl

/-- If the loader has it, a built-in type is found under its name whether it is registered or not. -/
theorem lookupOrLoad_name (builtin : catalog.Builtin)
    (loads : catalog.loader.supplies type.name = true) (known : type.Builtin) (family : Family) :
    (catalog.lookupOrLoad type.name family type.revision).2 = some type := by
  obtain found | ⟨missing, absent⟩ := builtin.lookup_name known family
  · simp only [Catalog.lookupOrLoad, found]
  · simp only [Catalog.lookupOrLoad, missing]
    have asked : Builtin { catalog with loader := catalog.loader.ask type.name } := builtin
    simp only [Catalog.load, if_pos loads]
    exact asked.lookup_loadBuiltin known absent family

end Builtin

theorem lookup_key (found : catalog.lookup name family revision = some type) :
    type.name = name ∧ type.revision = revision := by
  have accepted := List.find?_some found
  simp only [SetType.serves, Bool.and_eq_true, decide_eq_true_eq] at accepted
  exact ⟨accepted.1.1, accepted.2⟩

theorem lookupOrLoad_key (found : (catalog.lookupOrLoad name family revision).2 = some type) :
    type.name = name ∧ type.revision = revision := by
  unfold lookupOrLoad at found
  split at found
  · rename_i registered
    cases found
    exact lookup_key registered
  · exact lookup_key found

/-! ## Loaders -/

theorem register_loader {registered : Catalog σ}
    (accepted : catalog.register type = .ok registered) :
    registered.loader = catalog.loader := by
  unfold register at accepted
  split at accepted
  · contradiction
  · split at accepted
    · contradiction
    · cases accepted
      rfl

theorem unregister_loader {left : Catalog σ}
    (removed : catalog.unregister name family revision = .ok (left, type)) :
    left.loader = catalog.loader := by
  unfold unregister at removed
  split at removed
  · cases removed
    rfl
  · contradiction

theorem loadBuiltin_loader (catalog : Catalog σ) (name : String) :
    (catalog.loadBuiltin name).loader = catalog.loader := by
  unfold loadBuiltin
  split
  · rfl
  · split
    · rename_i accepted
      exact register_loader accepted
    · rfl

theorem load_loader (catalog : Catalog σ) (name : String) :
    (catalog.load name).loader = catalog.loader.ask name := by
  unfold load
  split
  · rw [loadBuiltin_loader]
  · rfl

/-- Only built-in types are registered, and the loader brings those that are missing. -/
structure Supplied (catalog : Catalog σ) : Prop where
  builtin : catalog.Builtin
  loads : ∀ name, catalog.loader.supplies name = true

namespace Supplied

theorem register {registered : Catalog σ} (supplied : catalog.Supplied) (new : type.Builtin)
    (accepted : catalog.register type = .ok registered) : registered.Supplied where
  builtin := supplied.builtin.register new accepted
  loads := by
    rw [register_loader accepted]
    exact supplied.loads

theorem unregister {left : Catalog σ} (supplied : catalog.Supplied)
    (removed : catalog.unregister name family revision = .ok (left, type)) : left.Supplied where
  builtin := supplied.builtin.unregister removed
  loads := by
    rw [unregister_loader removed]
    exact supplied.loads

theorem load (supplied : catalog.Supplied) (name : String) : (catalog.load name).Supplied where
  builtin := supplied.builtin.load name
  loads := by
    rw [load_loader]
    exact supplied.loads

theorem lookupOrLoad (supplied : catalog.Supplied) (name : String) (family : Family)
    (revision : UInt8) : (catalog.lookupOrLoad name family revision).1.Supplied := by
  unfold Catalog.lookupOrLoad
  split
  · exact supplied
  · exact supplied.load name

theorem revisionRangeOrLoad (supplied : catalog.Supplied) (name : String) (family : Family) :
    (catalog.revisionRangeOrLoad name family).1.Supplied := by
  unfold Catalog.revisionRangeOrLoad
  split
  · exact supplied
  · exact supplied.load name

theorem durable : Durable fun catalog : Catalog σ => catalog.Supplied where
  unregister supplied removed := supplied.unregister removed
  lookupOrLoad name family revision supplied := supplied.lookupOrLoad name family revision
  revisionRangeOrLoad name family supplied := supplied.revisionRangeOrLoad name family

/-- Whatever built-in type was found once is found again. -/
theorem lookupOrLoad_again {later : Catalog σ} (supplied : catalog.Supplied)
    (stays : later.Supplied) (found : (catalog.lookupOrLoad name family revision).2 = some type) :
    (later.lookupOrLoad name family revision).2 = some type := by
  have known := (supplied.builtin.lookupOrLoad name family revision).2 type found
  obtain ⟨rfl, rfl⟩ := lookupOrLoad_key found
  exact stays.builtin.lookupOrLoad_name (stays.loads type.name) known family

end Supplied

end Catalog

end NamedSets
