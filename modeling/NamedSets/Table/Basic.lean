import NamedSets.SetType

/-!
# The table of sets

Sets live in numbered slots, and a slot number is the handle that others keep. A swap exchanges
two sets with their slots, and their names and reference counts besides: to those who know a slot
or a name, it is the contents that have moved.
-/

namespace NamedSets

structure Entry (σ : Type) where
  name : SetName
  type : SetType σ
  family : Family
  references : UInt32
  storage : Storage σ

namespace Entry

variable {σ : Type}

def accepts (entry : Entry σ) (query : Query) : Bool :=
  entry.type.dimension ≤ query.dimension && entry.family.accepts query.family

/-- Two sets with their names and reference counts exchanged. -/
def swapIdentity (entry other : Entry σ) : Entry σ × Entry σ :=
  ({ entry with name := other.name, references := other.references },
    { other with name := entry.name, references := entry.references })

def withContents (entry contents : Entry σ) : Entry σ :=
  { entry with type := contents.type, family := contents.family, storage := contents.storage }

/-- In the slot of the other set, each identity gets the contents of the other one. -/
theorem swapIdentity_eq (entry other : Entry σ) :
    entry.swapIdentity other = (other.withContents entry, entry.withContents other) := rfl

def shown (entry : Entry σ) : Shown where
  name := entry.name
  typeName := entry.type.name
  typeFamily := entry.type.family
  revision := entry.type.revision
  dimension := entry.type.dimension
  features := entry.type.features
  family := entry.family
  references := entry.references

def hold (entry : Entry σ) : Entry σ := { entry with references := entry.references + 1 }

def release (entry : Entry σ) : Entry σ :=
  if entry.references = 0 then entry else { entry with references := entry.references - 1 }

end Entry

structure Table (σ : Type) where
  slots : Array (Option (Entry σ))

namespace Table

variable {σ : Type}

def empty (capacity : Nat) : Table σ where
  slots := Array.replicate capacity none

def capacity (table : Table σ) : Nat := table.slots.size

/-- The set in a slot; none if the slot is empty or does not exist. -/
def get? (table : Table σ) (id : Nat) : Option (Entry σ) := table.slots[id]?.join

def set (table : Table σ) (id : Nat) (entry : Option (Entry σ)) : Table σ where
  slots := table.slots.setIfInBounds id entry

def modify (table : Table σ) (id : Nat) (change : Entry σ → Entry σ) : Table σ where
  slots := table.slots.modify id (Option.map change)

def setStorage (table : Table σ) (id : Nat) (storage : Storage σ) : Table σ :=
  table.modify id fun entry => { entry with storage }

def find? (table : Table σ) (name : String) : Option Nat :=
  table.slots.findIdx? fun slot => slot.any (·.name.text = name)

def lookup? (table : Table σ) (name : String) : Option (Nat × Entry σ) :=
  (table.find? name).bind fun id => (table.get? id).map fun entry => (id, entry)

def free? (table : Table σ) : Option Nat := table.slots.findIdx? Option.isNone

def hold (table : Table σ) (id : Nat) : Table σ := table.modify id Entry.hold

def release (table : Table σ) (id : Nat) : Table σ := table.modify id Entry.release

def releaseAll (table : Table σ) (ids : List Nat) : Table σ := ids.foldl release table

def holdByName (table : Table σ) (name : String) : Table σ × Option Nat :=
  match table.find? name with
  | some id => (table.hold id, some id)
  | none => (table, none)

def holdById (table : Table σ) (id : Nat) : Table σ × Option Nat :=
  match table.get? id with
  | some _ => (table.hold id, some id)
  | none => (table, none)

def name? (table : Table σ) (id : Nat) : Option SetName := (table.get? id).map (·.name)

/-- What a storage is shown of the table. -/
def shown (table : Table σ) : List (Option Shown) :=
  table.slots.toList.map (Option.map Entry.shown)

def invalidHandle : Nat := 65535

/-- How a slot is shown to those who cannot be told "none". -/
def handle (id? : Option Nat) : Nat := id?.getD invalidHandle

/-! ## Reading a table after a change -/

@[simp] theorem capacity_set (table : Table σ) (id : Nat) (entry : Option (Entry σ)) :
    (table.set id entry).capacity = table.capacity := by
  simp [set, capacity]

@[simp] theorem capacity_modify (table : Table σ) (id : Nat) (change : Entry σ → Entry σ) :
    (table.modify id change).capacity = table.capacity := by
  simp [modify, capacity]

@[simp] theorem capacity_releaseAll (table : Table σ) (ids : List Nat) :
    (table.releaseAll ids).capacity = table.capacity := by
  induction ids generalizing table with
  | nil => rfl
  | cons id rest ih => exact (ih (table.release id)).trans (capacity_modify _ _ _)

theorem get_set (table : Table σ) (id other : Nat) (entry : Option (Entry σ)) :
    (table.set id entry).get? other =
      if id = other ∧ other < table.capacity then entry else table.get? other := by
  simp only [set, get?, capacity, Array.getElem?_setIfInBounds]
  by_cases same : id = other
  · subst same
    by_cases inside : id < table.slots.size <;> simp [inside]
  · simp [same]

theorem get_modify (table : Table σ) (id other : Nat) (change : Entry σ → Entry σ) :
    (table.modify id change).get? other =
      if id = other then (table.get? other).map change else table.get? other := by
  simp only [modify, get?, Array.getElem?_modify]
  by_cases same : id = other
  · simp only [same, if_true]
    cases table.slots[other]? with
    | none => rfl
    | some slot => cases slot <;> rfl
  · simp [same]

/-- What is stored in a set is not shown to others. -/
theorem shown_setStorage (table : Table σ) (id : Nat) (storage : Storage σ) :
    (table.setStorage id storage).shown = table.shown := by
  apply List.ext_getElem?
  intro slot
  simp only [shown, setStorage, modify, List.getElem?_map, Array.getElem?_toList,
    Array.getElem?_modify]
  split
  · cases table.slots[slot]? with
    | none => rfl
    | some entry? => cases entry? <;> rfl
  · rfl

theorem get_of_find {table : Table σ} {name : String} {id : Nat}
    (found : table.find? name = some id) :
    ∃ entry, table.get? id = some entry ∧ entry.name.text = name := by
  obtain ⟨inside, named, _⟩ := Array.findIdx?_eq_some_iff_getElem.mp found
  cases slot : table.slots[id] with
  | none => simp [slot] at named
  | some entry =>
      refine ⟨entry, ?_, by simpa [slot] using named⟩
      simp [get?, Array.getElem?_eq_getElem inside, slot]

theorem lookup_of_find {table : Table σ} {name : String} {id : Nat}
    (found : table.find? name = some id) :
    ∃ entry, table.lookup? name = some (id, entry) ∧ table.get? id = some entry ∧
      entry.name.text = name := by
  obtain ⟨entry, occupied, named⟩ := get_of_find found
  exact ⟨entry, by simp [lookup?, found, occupied], occupied, named⟩

theorem lookup_eq_none_iff {table : Table σ} {name : String} :
    table.lookup? name = none ↔ table.find? name = none := by
  cases found : table.find? name with
  | none => simp [lookup?, found]
  | some id =>
      obtain ⟨entry, there, _⟩ := lookup_of_find found
      simp [there]

theorem lt_capacity_of_get {table : Table σ} {id : Nat} {entry : Entry σ}
    (found : table.get? id = some entry) : id < table.capacity := by
  cases Nat.lt_or_ge id table.capacity with
  | inl inside => exact inside
  | inr outside =>
      have none : table.slots[id]? = none := Array.getElem?_eq_none outside
      simp [get?, none] at found

end Table

end NamedSets
