import NamedSets.Proofs.Table.Stability

namespace NamedSets.Table

variable {σ : Type} {table after : Table σ} {id : Nat} {entry : Entry σ} {name : String}

def NamesDistinct (table : Table σ) : Prop :=
  ∀ id other entry set, table.get? id = some entry → table.get? other = some set →
    entry.name.text = set.name.text → id = other

theorem find_eq_none_iff :
    table.find? name = none ↔
      ∀ id entry, table.get? id = some entry → entry.name.text ≠ name := by
  constructor
  · intro absent id entry found
    exact name_ne_of_find_eq_none absent found
  · intro unused
    cases found : table.find? name with
    | none => rfl
    | some id =>
        obtain ⟨entry, there, named⟩ := get_of_find found
        exact absurd named (unused id entry there)

namespace NamesDistinct

theorem lookup_iff (distinct : table.NamesDistinct) :
    table.lookup? name = some (id, entry) ↔
      table.get? id = some entry ∧ entry.name.text = name := by
  constructor
  · intro found
    exact (get_of_lookup found).2
  · rintro ⟨there, rfl⟩
    cases found : table.find? entry.name.text with
    | none => exact absurd rfl (find_eq_none_iff.mp found id entry there)
    | some other =>
        obtain ⟨set, looked, here, named⟩ := lookup_of_find found
        have same := distinct id other entry set there here named.symm
        subst same
        cases there.symm.trans here
        exact looked

theorem empty (capacity : Nat) : (Table.empty capacity : Table σ).NamesDistinct := by
  intro id other entry set there
  rw [get_empty] at there
  contradiction

/-- Names stay distinct as long as no slot gets a name that it did not have. -/
theorem of_names (distinct : table.NamesDistinct)
    (names : ∀ id later, after.get? id = some later →
      ∃ entry, table.get? id = some entry ∧ entry.name = later.name) :
    after.NamesDistinct := by
  intro id other entry set there here same
  obtain ⟨before, found, named⟩ := names id entry there
  obtain ⟨secondBefore, secondFound, secondNamed⟩ := names other set here
  apply distinct id other before secondBefore found secondFound
  rw [named, secondNamed, same]

theorem of_sameLabels (distinct : table.NamesDistinct) (same : SameLabels table after) :
    after.NamesDistinct := by
  apply distinct.of_names
  intro id later there
  obtain ⟨entry, found, sameName, -⟩ := same.symm.get there
  exact ⟨entry, found, sameName⟩

/-- A slot may get a name that no set has. -/
theorem set_unused (distinct : table.NamesDistinct) (inside : id < table.capacity)
    (unused : table.find? entry.name.text = none) :
    (table.set id (some entry)).NamesDistinct := by
  have fresh := find_eq_none_iff.mp unused
  intro first second old set there here same
  rw [get_set_inside inside] at there here
  split at there
  · rename_i firstSlot
    split at here
    · rename_i secondSlot
      exact firstSlot.symm.trans secondSlot
    · cases there
      exact absurd same.symm (fresh second set here)
  · split at here
    · cases here
      exact absurd same (fresh first old there)
    · exact distinct first second old set there here same

/-- A slot may get other contents under the name that it has. -/
theorem set_same {old : Entry σ} (distinct : table.NamesDistinct)
    (found : table.get? id = some old) (named : entry.name = old.name) :
    (table.set id (some entry)).NamesDistinct := by
  apply distinct.of_names
  intro slot later there
  rw [get_set_inside (lt_capacity_of_get found)] at there
  split at there
  · rename_i same
    cases there
    exact ⟨old, same ▸ found, named.symm⟩
  · exact ⟨later, there, rfl⟩

theorem exchanged {secondId : Nat} {other : Entry σ} (distinct : table.NamesDistinct)
    (found : table.get? id = some entry) (secondFound : table.get? secondId = some other)
    (different : id ≠ secondId) :
    (table.exchanged id secondId entry other).NamesDistinct := by
  have changed : (table.set id (some (entry.withContents other))).NamesDistinct :=
    distinct.set_same found rfl
  have stays : (table.set id (some (entry.withContents other))).get? secondId = some other := by
    rw [get_set_inside (lt_capacity_of_get found), if_neg different, secondFound]
  exact changed.set_same stays rfl

theorem create [ForeignStorage σ] (distinct : table.NamesDistinct) (creation : Creation)
    (type : SetType σ) (storage : Storage σ) :
    (table.create creation type storage).1.NamesDistinct := by
  obtain ⟨_, _, -, refused⟩ | ⟨-, -, refused⟩ | ⟨id, absent, free, created⟩ :=
    create_cases table creation type storage
  · rw [refused]
    exact distinct
  · rw [refused]
    exact distinct
  · rw [created]
    obtain ⟨-, inside, -⟩ := get_eq_none_of_free free
    exact distinct.set_unused inside (lookup_eq_none_iff.mp absent)

theorem remove (distinct : table.NamesDistinct) (inside : id < table.capacity) :
    (table.set id none).NamesDistinct := by
  apply distinct.of_names
  intro slot later there
  rw [get_set_inside inside] at there
  split at there
  · contradiction
  · exact ⟨later, there, rfl⟩

theorem destroy (distinct : table.NamesDistinct) (name : String) :
    (table.destroy name).1.NamesDistinct := by
  obtain ⟨-, refused⟩ | ⟨_, _, -, -, refused⟩ | ⟨id, entry, found, -, removed⟩ :=
    destroy_cases table name
  · rw [refused]
    exact distinct
  · rw [refused]
    exact distinct
  · rw [removed]
    have left := distinct.remove (lt_capacity_of_get (get_of_lookup found).2.1)
    exact left.of_sameLabels (.releaseAll _ entry.storage.members)

theorem destroyAll (distinct : table.NamesDistinct) : table.destroyAll.1.NamesDistinct := by
  obtain ⟨-, refused⟩ | ⟨-, removed⟩ := destroyAll_cases table
  · rw [refused]
    exact distinct
  · rw [removed]
    exact .empty table.capacity

theorem rename (distinct : table.NamesDistinct) (name : String) (newName : SetName) :
    (table.rename name newName).1.NamesDistinct := by
  obtain ⟨-, refused⟩ | ⟨_, _, -, -, refused⟩ | ⟨_, _, -, -, -, refused⟩ |
      ⟨id, entry, found, -, unused, renamed⟩ := rename_cases table name newName
  · rw [refused]
    exact distinct
  · rw [refused]
    exact distinct
  · rw [refused]
    exact distinct
  · rw [renamed]
    exact distinct.set_unused (lt_capacity_of_get (get_of_lookup found).2.1) unused

theorem swap (distinct : table.NamesDistinct) (name second : String) :
    (table.swap name second).1.NamesDistinct := by
  obtain ⟨_, refused, -⟩ | ⟨id, entry, secondId, other, found, secondFound, -, swapped⟩ :=
    swap_cases table name second
  · rw [refused]
    exact distinct
  · rw [swapped]
    split
    · exact distinct
    · rename_i different
      exact distinct.exchanged (get_of_lookup found).2.1 (get_of_lookup secondFound).2.1 different

end NamesDistinct

/-- Whatever an operation does, no name comes to stand for two slots. -/
theorem Reform.namesDistinct [ForeignStorage σ] (reform : table.Reform after)
    (distinct : table.NamesDistinct) : after.NamesDistinct := by
  cases reform with
  | labels same => exact distinct.of_sameLabels same
  | create creation type storage => exact distinct.create creation type storage
  | destroy name => exact distinct.destroy name
  | destroyAll => exact distinct.destroyAll
  | rename name newName => exact distinct.rename name newName
  | swap name second => exact distinct.swap name second

end NamedSets.Table
