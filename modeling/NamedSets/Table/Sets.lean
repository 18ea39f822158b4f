import NamedSets.Table.Basic

namespace NamedSets.Table

variable {σ : Type}

structure Creation where
  name : SetName
  family : Family
  /-- A set of the same name and the same parameters is as good as a new one. -/
  allowExisting : Bool

def Creation.isMetBy [ForeignStorage σ] (creation : Creation) (type : SetType σ)
    (storage : Storage σ) (entry : Entry σ) : Bool :=
  creation.allowExisting && entry.type.name = type.name && entry.family = creation.family &&
    entry.type.revision = type.revision && entry.storage.sameParameters storage

/-- Puts a new set into the first empty slot, unless its name is in use. -/
def create [ForeignStorage σ] (table : Table σ) (creation : Creation) (type : SetType σ)
    (storage : Storage σ) : Table σ × Except Fault Nat :=
  match table.lookup? creation.name.text with
  | some (id, entry) =>
      if creation.isMetBy type storage entry then (table, .ok id)
      else (table, .error .setExists)
  | none =>
      match table.free? with
      | none => (table, .error .tableFull)
      | some id =>
          let entry : Entry σ := {
            name := creation.name, type, family := creation.family, references := 0, storage }
          (table.set id (some entry), .ok id)

/-- Removes the set of a name, which nobody may refer to. -/
def destroy (table : Table σ) (name : String) : Table σ × Except Fault Unit :=
  match table.lookup? name with
  | none => (table, .error .noSuchSet)
  | some (id, entry) =>
      if entry.references ≠ 0 then (table, .error .setInUse)
      else ((table.set id none).releaseAll entry.storage.members, .ok ())

def destroyAll (table : Table σ) : Table σ × Except Fault Unit :=
  if table.slots.any fun slot => slot.any (·.references ≠ 0) then (table, .error .someSetInUse)
  else (empty table.capacity, .ok ())

def flushSlot [ForeignStorage σ] (table : Table σ) (id : Nat) : Table σ :=
  match table.get? id with
  | none => table
  | some entry =>
      match entry.storage with
      | .hash hash => table.setStorage id (.hash hash.clear)
      | .list list => (table.setStorage id (.list { list with members := [] })).releaseAll list.members
      | .foreign storage =>
          let seen := ForeignStorage.observe storage table.shown
          table.setStorage id (.foreign (ForeignStorage.flush seen))

def flush [ForeignStorage σ] (table : Table σ) (name : String) : Table σ × Except Fault Unit :=
  match table.find? name with
  | none => (table, .error .noSuchSet)
  | some id => (table.flushSlot id, .ok ())

def flushAll [ForeignStorage σ] (table : Table σ) : Table σ :=
  (List.range table.capacity).foldl flushSlot table

def rename (table : Table σ) (name : String) (newName : SetName) : Table σ × Except Fault Unit :=
  match table.lookup? name with
  | none => (table, .error .noSuchSet)
  | some (id, entry) =>
      if entry.references ≠ 0 then (table, .error .setReferenced)
      else if (table.find? newName.text).isSome then (table, .error .newNameTaken)
      else (table.modify id fun entry => { entry with name := newName }, .ok ())

/-- Exchanges the slots of two sets, whose types must have the same features and the same family.
Since names and reference counts are exchanged as well, they stay where they are. -/
def swap (table : Table σ) (name second : String) : Table σ × Except Fault Unit :=
  match table.lookup? name, table.lookup? second with
  | none, _ => (table, .error .noSuchSet)
  | some _, none => (table, .error .noSecondSet)
  | some (id, entry), some (secondId, other) =>
      if entry.type.features ≠ other.type.features ∨ entry.type.family ≠ other.type.family then
        (table, .error .incompatibleSets)
      else if id = secondId then (table, .ok ())
      else
        let (entry, other) := entry.swapIdentity other
        ((table.set id (some other)).set secondId (some entry), .ok ())

end NamedSets.Table
