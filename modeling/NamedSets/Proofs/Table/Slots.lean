import Mathlib.Logic.Function.Iterate
import NamedSets.Table.Sets

namespace NamedSets.Table

variable {σ : Type} {table other : Table σ} {id slot : Nat} {entry : Entry σ}

/-! ## Reading slots -/

theorem ext_get (sameCapacity : table.capacity = other.capacity)
    (sameSlots : ∀ slot, table.get? slot = other.get? slot) : table = other := by
  obtain ⟨slots⟩ := table
  obtain ⟨others⟩ := other
  congr 1
  apply Array.ext sameCapacity
  intro slot inside otherInside
  simpa [get?, Array.getElem?_eq_getElem inside, Array.getElem?_eq_getElem otherInside]
    using sameSlots slot

theorem get_eq_none_of_capacity_le (outside : table.capacity ≤ id) : table.get? id = none := by
  cases found : table.get? id with
  | none => rfl
  | some entry => exact absurd (lt_capacity_of_get found) (Nat.not_lt.mpr outside)

theorem get_set_inside (inside : id < table.capacity) (content : Option (Entry σ)) (slot : Nat) :
    (table.set id content).get? slot = if id = slot then content else table.get? slot := by
  rw [get_set]
  by_cases same : id = slot
  · subst same
    simp [inside]
  · simp [same]

/-- Changing the set in an occupied slot is putting the changed set there. -/
theorem modify_eq_set (found : table.get? id = some entry) (change : Entry σ → Entry σ) :
    table.modify id change = table.set id (some (change entry)) := by
  apply ext_get (by simp)
  intro slot
  rw [get_modify, get_set_inside (lt_capacity_of_get found)]
  by_cases same : id = slot
  · subst same
    simp [found]
  · simp [same]

theorem setStorage_eq_set (found : table.get? id = some entry) (storage : Storage σ) :
    table.setStorage id storage = table.set id (some { entry with storage }) :=
  modify_eq_set found _

theorem get_hold (found : table.get? id = some entry) :
    (table.hold id).get? id = some entry.hold := by
  rw [hold, get_modify, if_pos rfl, found, Option.map_some]

def storage? (table : Table σ) (id : Nat) : Option (Storage σ) := (table.get? id).map (·.storage)

theorem storage_of_get {storage : Storage σ} (found : table.get? id = some entry)
    (stored : entry.storage = storage) : table.storage? id = some storage := by
  rw [storage?, found, Option.map_some, stored]

theorem storage_modify {change : Entry σ → Entry σ}
    (keeps : ∀ entry, (change entry).storage = entry.storage) (id slot : Nat) :
    (table.modify id change).storage? slot = table.storage? slot := by
  rw [storage?, get_modify, storage?]
  split
  · cases table.get? slot with
    | none => rfl
    | some entry => exact congrArg some (keeps entry)
  · rfl

@[simp] theorem storage_hold (table : Table σ) (id slot : Nat) :
    (table.hold id).storage? slot = table.storage? slot := by
  refine storage_modify ?_ id slot
  exact fun _ => rfl

@[simp] theorem storage_release (table : Table σ) (id slot : Nat) :
    (table.release id).storage? slot = table.storage? slot := by
  refine storage_modify ?_ id slot
  intro entry
  unfold Entry.release
  split <;> rfl

@[simp] theorem storage_releaseAll (table : Table σ) (ids : List Nat) (slot : Nat) :
    (table.releaseAll ids).storage? slot = table.storage? slot := by
  induction ids generalizing table with
  | nil => rfl
  | cons id rest ih => exact (ih (table.release id)).trans (storage_release table id slot)

theorem storage_setStorage {old : Storage σ} (stored : table.storage? id = some old)
    (storage : Storage σ) (slot : Nat) :
    (table.setStorage id storage).storage? slot =
      if id = slot then some storage else table.storage? slot := by
  rw [storage?, setStorage, get_modify]
  split
  · rename_i same
    subst same
    obtain ⟨entry, found, -⟩ := Option.map_eq_some_iff.mp stored
    rw [found, Option.map_some, Option.map_some]
  · rfl

theorem storage_set_inside (inside : id < table.capacity) (content : Option (Entry σ))
    (slot : Nat) : (table.set id content).storage? slot =
      if id = slot then content.map (·.storage) else table.storage? slot := by
  rw [storage?, get_set_inside inside]
  split <;> rfl

/-- Putting a storage where it is changes nothing. -/
theorem setStorage_self {storage : Storage σ} (stored : table.storage? id = some storage) :
    table.setStorage id storage = table := by
  obtain ⟨entry, found, rfl⟩ := Option.map_eq_some_iff.mp stored
  apply ext_get (capacity_modify _ _ _)
  intro slot
  rw [get_modify]
  split
  · rename_i same
    rw [← same, found]
    rfl
  · rfl

@[simp] theorem capacity_setStorage (table : Table σ) (id : Nat) (storage : Storage σ) :
    (table.setStorage id storage).capacity = table.capacity := capacity_modify _ _ _

@[simp] theorem setStorage_setStorage (table : Table σ) (id : Nat) (first second : Storage σ) :
    (table.setStorage id first).setStorage id second = table.setStorage id second := by
  apply ext_get (by simp)
  intro slot
  simp only [setStorage, get_modify]
  split
  · rw [Option.map_map]
    rfl
  · rfl

@[simp] theorem capacity_hold (table : Table σ) (id : Nat) :
    (table.hold id).capacity = table.capacity := capacity_modify _ _ _

@[simp] theorem capacity_release (table : Table σ) (id : Nat) :
    (table.release id).capacity = table.capacity := capacity_modify _ _ _

@[simp] theorem capacity_empty (capacity : Nat) :
    (empty capacity : Table σ).capacity = capacity := by
  simp [empty, Table.capacity]

@[simp] theorem get_empty (capacity id : Nat) : (empty capacity : Table σ).get? id = none := by
  simp only [empty, get?, Array.getElem?_replicate]
  split <;> rfl

/-- Giving back references to some slots gives back one for every mention of a slot. -/
theorem get_releaseAll (table : Table σ) (ids : List Nat) (slot : Nat) :
    (table.releaseAll ids).get? slot = (table.get? slot).map Entry.release^[ids.count slot] := by
  induction ids generalizing table with
  | nil => simp [releaseAll]
  | cons id rest ih =>
      have first : (table.release id).get? slot =
          if id = slot then (table.get? slot).map Entry.release else table.get? slot :=
        get_modify table id slot Entry.release
      have later := ih (table.release id)
      rw [first] at later
      change ((table.release id).releaseAll rest).get? slot = _
      rw [later]
      by_cases same : id = slot
      · subst same
        rw [if_pos rfl, List.count_cons_self, Function.iterate_succ, Option.map_map]
      · rw [if_neg same, List.count_cons_of_ne same]

theorem get_eq_none_of_free (found : table.free? = some id) :
    table.get? id = none ∧ id < table.capacity ∧
      ∀ slot < id, ∃ entry, table.get? slot = some entry := by
  obtain ⟨inside, empty, first⟩ := Array.findIdx?_eq_some_iff_getElem.mp found
  refine ⟨?_, inside, ?_⟩
  · simpa [get?, Array.getElem?_eq_getElem inside] using empty
  · intro slot earlier
    have present : slot < table.slots.size := Nat.lt_trans earlier inside
    have occupied := first slot earlier
    cases content : table.slots[slot] with
    | none => simp [content] at occupied
    | some entry => exact ⟨entry, by simp [get?, Array.getElem?_eq_getElem present, content]⟩

theorem occupied_of_free_eq_none (full : table.free? = none) {slot : Nat}
    (inside : slot < table.capacity) : ∃ entry, table.get? slot = some entry := by
  have occupied := Array.findIdx?_eq_none_iff.mp full table.slots[slot] (Array.getElem_mem inside)
  cases content : table.slots[slot] with
  | none => simp [content] at occupied
  | some entry => exact ⟨entry, by simp [get?, Array.getElem?_eq_getElem inside, content]⟩

theorem get_of_lookup {name : String} (found : table.lookup? name = some (id, entry)) :
    table.find? name = some id ∧ table.get? id = some entry ∧ entry.name.text = name := by
  cases first : table.find? name with
  | none => simp [lookup_eq_none_iff.mpr first] at found
  | some slot =>
      obtain ⟨present, there, occupied, named⟩ := lookup_of_find first
      rw [there, Option.some.injEq, Prod.mk.injEq] at found
      obtain ⟨rfl, rfl⟩ := found
      exact ⟨rfl, occupied, named⟩

/-- A name that no look-up finds is the name of no set. -/
theorem name_ne_of_find_eq_none {name : String} (absent : table.find? name = none)
    (found : table.get? id = some entry) : entry.name.text ≠ name := by
  intro named
  have inside : id < table.slots.size := lt_capacity_of_get found
  have unnamed := Array.findIdx?_eq_none_iff.mp absent table.slots[id] (Array.getElem_mem inside)
  have content : table.slots[id] = some entry := by
    simpa [get?, Array.getElem?_eq_getElem inside] using found
  simp [content, named] at unnamed

/-! ## What the operations on whole sets can do -/

def Creation.newSet (creation : Creation) (type : SetType σ) (storage : Storage σ) : Entry σ where
  name := creation.name
  type
  family := creation.family
  references := 0
  storage

theorem create_found [ForeignStorage σ] {table : Table σ} {creation : Creation} {id : Nat}
    {entry : Entry σ} (found : table.lookup? creation.name.text = some (id, entry))
    (type : SetType σ) (storage : Storage σ) :
    table.create creation type storage =
      (table, if creation.isMetBy type storage entry then .ok id else .error .setExists) := by
  simp only [create, found]
  split <;> rfl

theorem create_cases [ForeignStorage σ] (table : Table σ) (creation : Creation)
    (type : SetType σ) (storage : Storage σ) :
    (∃ id entry, table.lookup? creation.name.text = some (id, entry) ∧
      table.create creation type storage =
        (table, if creation.isMetBy type storage entry then .ok id else .error .setExists)) ∨
    (table.lookup? creation.name.text = none ∧ table.free? = none ∧
      table.create creation type storage = (table, .error .tableFull)) ∨
    (∃ id, table.lookup? creation.name.text = none ∧ table.free? = some id ∧
      table.create creation type storage =
        (table.set id (some (creation.newSet type storage)), .ok id)) := by
  cases found : table.lookup? creation.name.text with
  | some present =>
      obtain ⟨id, entry⟩ := present
      exact .inl ⟨id, entry, rfl, create_found found type storage⟩
  | none =>
      cases free : table.free? with
      | none => exact .inr (.inl ⟨rfl, rfl, by simp only [create, found, free]⟩)
      | some id =>
          exact .inr (.inr ⟨id, rfl, rfl, by simp only [create, found, free, Creation.newSet]⟩)

theorem destroy_cases (table : Table σ) (name : String) :
    (table.lookup? name = none ∧ table.destroy name = (table, .error .noSuchSet)) ∨
    (∃ id entry, table.lookup? name = some (id, entry) ∧ entry.references ≠ 0 ∧
      table.destroy name = (table, .error .setInUse)) ∨
    (∃ id entry, table.lookup? name = some (id, entry) ∧ entry.references = 0 ∧
      table.destroy name = ((table.set id none).releaseAll entry.storage.members, .ok ())) := by
  cases found : table.lookup? name with
  | none => exact .inl ⟨rfl, by simp only [destroy, found]⟩
  | some present =>
      obtain ⟨id, entry⟩ := present
      by_cases unused : entry.references = 0
      · exact .inr (.inr ⟨id, entry, rfl, unused, by simp [destroy, found, unused]⟩)
      · exact .inr (.inl ⟨id, entry, rfl, unused, by simp [destroy, found, unused]⟩)

theorem any_references_iff (table : Table σ) :
    (table.slots.any fun slot => slot.any (·.references ≠ 0)) = true ↔
      ∃ id entry, table.get? id = some entry ∧ entry.references ≠ 0 := by
  rw [Array.any_eq_true]
  constructor
  · rintro ⟨id, inside, used⟩
    cases content : table.slots[id] with
    | none => simp [content] at used
    | some entry =>
        refine ⟨id, entry, by simp [get?, Array.getElem?_eq_getElem inside, content], ?_⟩
        simpa [content] using used
  · rintro ⟨id, entry, found, used⟩
    have inside : id < table.slots.size := lt_capacity_of_get found
    have content : table.slots[id] = some entry := by
      simpa [get?, Array.getElem?_eq_getElem inside] using found
    exact ⟨id, inside, by simpa [content] using used⟩

theorem destroyAll_cases (table : Table σ) :
    ((∃ id entry, table.get? id = some entry ∧ entry.references ≠ 0) ∧
      table.destroyAll = (table, .error .someSetInUse)) ∨
    ((∀ id entry, table.get? id = some entry → entry.references = 0) ∧
      table.destroyAll = (empty table.capacity, .ok ())) := by
  by_cases used : ∃ id entry, table.get? id = some entry ∧ entry.references ≠ 0
  · exact .inl ⟨used, by rw [destroyAll, if_pos ((any_references_iff table).mpr used)]⟩
  · refine .inr ⟨fun id entry found => ?_, ?_⟩
    · exact Decidable.byContradiction fun nonzero => used ⟨id, entry, found, nonzero⟩
    · rw [destroyAll, if_neg (mt (any_references_iff table).mp used)]

theorem rename_cases (table : Table σ) (name : String) (newName : SetName) :
    (table.lookup? name = none ∧ table.rename name newName = (table, .error .noSuchSet)) ∨
    (∃ id entry, table.lookup? name = some (id, entry) ∧ entry.references ≠ 0 ∧
      table.rename name newName = (table, .error .setReferenced)) ∨
    (∃ id entry, table.lookup? name = some (id, entry) ∧ entry.references = 0 ∧
      (∃ slot, table.find? newName.text = some slot) ∧
      table.rename name newName = (table, .error .newNameTaken)) ∨
    (∃ id entry, table.lookup? name = some (id, entry) ∧ entry.references = 0 ∧
      table.find? newName.text = none ∧
      table.rename name newName =
        (table.set id (some { entry with name := newName }), .ok ())) := by
  cases found : table.lookup? name with
  | none => exact .inl ⟨rfl, by simp only [rename, found]⟩
  | some present =>
      obtain ⟨id, entry⟩ := present
      by_cases unused : entry.references = 0
      · cases taken : table.find? newName.text with
        | some slot =>
            exact .inr (.inr (.inl ⟨id, entry, rfl, unused, ⟨slot, rfl⟩, by
              simp [rename, found, unused, taken]⟩))
        | none =>
            have occupied := (get_of_lookup found).2.1
            refine .inr (.inr (.inr ⟨id, entry, rfl, unused, rfl, ?_⟩))
            simp [rename, found, unused, taken,
              modify_eq_set occupied fun entry => { entry with name := newName }]
      · exact .inr (.inl ⟨id, entry, rfl, unused, by simp [rename, found, unused]⟩)

def Compatible (first second : Entry σ) : Prop :=
  first.type.features = second.type.features ∧ first.type.family = second.type.family

def exchanged (table : Table σ) (id secondId : Nat) (entry other : Entry σ) : Table σ :=
  (table.set id (some (entry.withContents other))).set secondId (some (other.withContents entry))

theorem swap_cases (table : Table σ) (name second : String) :
    (∃ fault, table.swap name second = (table, .error fault) ∧
      ∀ id entry secondId other, table.lookup? name = some (id, entry) →
        table.lookup? second = some (secondId, other) → ¬ Compatible entry other) ∨
    (∃ id entry secondId other, table.lookup? name = some (id, entry) ∧
      table.lookup? second = some (secondId, other) ∧ Compatible entry other ∧
      table.swap name second =
        (if id = secondId then table else table.exchanged id secondId entry other, .ok ())) := by
  cases found : table.lookup? name with
  | none => exact .inl ⟨.noSuchSet, by simp only [swap, found], by simp⟩
  | some present =>
      obtain ⟨id, entry⟩ := present
      cases secondFound : table.lookup? second with
      | none => exact .inl ⟨.noSecondSet, by simp only [swap, found, secondFound], by simp⟩
      | some secondPresent =>
          obtain ⟨secondId, other⟩ := secondPresent
          by_cases compatible : Compatible entry other
          · refine .inr ⟨id, entry, secondId, other, rfl, rfl, compatible, ?_⟩
            by_cases same : id = secondId <;>
              simp [swap, found, secondFound, compatible.1, compatible.2, same, exchanged,
                Entry.swapIdentity_eq]
          · refine .inl ⟨.incompatibleSets, ?_, ?_⟩
            · simp only [swap, found, secondFound]
              exact if_pos (not_and_or.mp compatible)
            · intro _ _ _ _ first later
              cases first
              cases later
              exact compatible

/-- An exchange leaves the names and the references where they are. -/
theorem get_exchanged {secondId : Nat} {first second : Entry σ}
    (found : table.get? id = some first) (secondFound : table.get? secondId = some second)
    (slot : Nat) :
    (table.exchanged id secondId first second).get? slot =
      if secondId = slot then some (second.withContents first)
      else if id = slot then some (first.withContents second) else table.get? slot := by
  have secondInside := lt_capacity_of_get secondFound
  rw [exchanged, get_set_inside (by simpa using secondInside),
    get_set_inside (lt_capacity_of_get found)]

end NamedSets.Table
