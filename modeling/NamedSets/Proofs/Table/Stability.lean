import NamedSets.Proofs.Table.Labels

namespace NamedSets.Table

variable {σ : Type} {table after : Table σ} {id : Nat} {entry : Entry σ}

inductive Reform [ForeignStorage σ] (table : Table σ) : Table σ → Prop
  | labels {after : Table σ} (same : SameLabels table after) : Reform table after
  | create (creation : Creation) (type : SetType σ) (storage : Storage σ) :
      Reform table (table.create creation type storage).1
  | destroy (name : String) : Reform table (table.destroy name).1
  | destroyAll : Reform table table.destroyAll.1
  | rename (name : String) (newName : SetName) : Reform table (table.rename name newName).1
  | swap (name second : String) : Reform table (table.swap name second).1

/-- Every set with references is still in its slot, under its name, and of a type with the
same features and the same family. -/
def Keeps (table after : Table σ) : Prop :=
  ∀ id entry, table.get? id = some entry → entry.references ≠ 0 →
    ∃ later, after.get? id = some later ∧ later.name = entry.name ∧
      later.type.features = entry.type.features ∧ later.type.family = entry.type.family

namespace Keeps

theorem refl (table : Table σ) : Keeps table table :=
  fun _ entry found _ => ⟨entry, found, rfl, rfl, rfl⟩

theorem of_sameLabels (same : SameLabels table after) : Keeps table after := by
  intro id entry found _
  obtain ⟨later, present, sameName, sameType⟩ := same.get found
  exact ⟨later, present, sameName, by rw [sameType], by rw [sameType]⟩

/-- Nothing happens to the sets in other slots than one that is not in use. -/
theorem set_idle (inside : id < table.capacity)
    (idle : ∀ entry, table.get? id = some entry → entry.references = 0)
    (content : Option (Entry σ)) : Keeps table (table.set id content) := by
  intro slot entry found used
  have different : id ≠ slot := by
    rintro rfl
    exact used (idle entry found)
  exact ⟨entry, by rw [get_set_inside inside, if_neg different, found], rfl, rfl, rfl⟩

theorem set_unused (found : table.get? id = some entry) (unused : entry.references = 0)
    (content : Option (Entry σ)) : Keeps table (table.set id content) := by
  refine .set_idle (lt_capacity_of_get found) (fun other there => ?_) content
  cases found.symm.trans there
  exact unused

theorem trans_sameLabels {middle : Table σ} (first : Keeps table middle)
    (second : SameLabels middle after) : Keeps table after := by
  intro id entry found used
  obtain ⟨between, present, named, features, family⟩ := first id entry found used
  obtain ⟨later, there, sameName, sameType⟩ := second.get present
  exact ⟨later, there, sameName.trans named, by rw [sameType, features],
    by rw [sameType, family]⟩

/-- An exchange of compatible contents moves neither names nor references. -/
theorem exchanged {secondId : Nat} {other : Entry σ} (found : table.get? id = some entry)
    (secondFound : table.get? secondId = some other) (compatible : Compatible entry other) :
    Keeps table (table.exchanged id secondId entry other) := by
  intro slot holder there _
  have content := get_exchanged found secondFound slot
  by_cases second : secondId = slot
  · subst second
    cases secondFound.symm.trans there
    rw [if_pos rfl] at content
    exact ⟨_, content, rfl, compatible.1, compatible.2⟩
  · by_cases first : id = slot
    · subst first
      cases found.symm.trans there
      rw [if_neg second, if_pos rfl] at content
      exact ⟨_, content, rfl, compatible.1.symm, compatible.2.symm⟩
    · rw [if_neg second, if_neg first] at content
      exact ⟨holder, content.trans there, rfl, rfl, rfl⟩

end Keeps

/-! ## Operations on whole sets -/

theorem keeps_create [ForeignStorage σ] (table : Table σ) (creation : Creation) (type : SetType σ)
    (storage : Storage σ) : Keeps table (table.create creation type storage).1 := by
  obtain ⟨_, _, -, refused⟩ | ⟨-, -, refused⟩ | ⟨id, -, free, created⟩ :=
    create_cases table creation type storage
  · rw [refused]
    exact .refl table
  · rw [refused]
    exact .refl table
  · rw [created]
    obtain ⟨vacant, inside, -⟩ := get_eq_none_of_free free
    exact .set_idle inside (by simp [vacant]) _

theorem keeps_destroy (table : Table σ) (name : String) :
    Keeps table (table.destroy name).1 := by
  obtain ⟨-, refused⟩ | ⟨_, _, -, -, refused⟩ | ⟨id, entry, found, unused, removed⟩ :=
    destroy_cases table name
  · rw [refused]
    exact .refl table
  · rw [refused]
    exact .refl table
  · rw [removed]
    have left := Keeps.set_unused (get_of_lookup found).2.1 unused none
    exact left.trans_sameLabels (.releaseAll _ entry.storage.members)

theorem keeps_destroyAll (table : Table σ) : Keeps table table.destroyAll.1 := by
  obtain ⟨-, refused⟩ | ⟨unused, -⟩ := destroyAll_cases table
  · rw [refused]
    exact .refl table
  · exact fun id entry found used => absurd (unused id entry found) used

theorem keeps_rename (table : Table σ) (name : String) (newName : SetName) :
    Keeps table (table.rename name newName).1 := by
  obtain ⟨-, refused⟩ | ⟨_, _, -, -, refused⟩ | ⟨_, _, -, -, -, refused⟩ |
      ⟨id, entry, found, unused, -, renamed⟩ := rename_cases table name newName
  · rw [refused]
    exact .refl table
  · rw [refused]
    exact .refl table
  · rw [refused]
    exact .refl table
  · rw [renamed]
    exact .set_unused (get_of_lookup found).2.1 unused _

theorem keeps_swap (table : Table σ) (name second : String) :
    Keeps table (table.swap name second).1 := by
  obtain ⟨_, refused, -⟩ | ⟨id, entry, secondId, other, found, secondFound, compatible, swapped⟩ :=
    swap_cases table name second
  · rw [refused]
    exact .refl table
  · rw [swapped]
    split
    · exact .refl table
    · exact .exchanged (get_of_lookup found).2.1 (get_of_lookup secondFound).2.1 compatible

/-- Whatever an operation does, it respects the references that others hold. -/
theorem Reform.keeps [ForeignStorage σ] (reform : table.Reform after) : Keeps table after := by
  cases reform with
  | labels same => exact .of_sameLabels same
  | create creation type storage => exact keeps_create table creation type storage
  | destroy name => exact keeps_destroy table name
  | destroyAll => exact keeps_destroyAll table
  | rename name newName => exact keeps_rename table name newName
  | swap name second => exact keeps_swap table name second

/-- No operation changes how many slots there are. -/
theorem Reform.capacity [ForeignStorage σ] (reform : table.Reform after) :
    after.capacity = table.capacity := by
  cases reform with
  | labels same => exact same.capacity
  | create creation type storage =>
      obtain ⟨_, _, -, done⟩ | ⟨-, -, done⟩ | ⟨_, -, -, done⟩ :=
        create_cases table creation type storage <;> simp [done]
  | destroy name =>
      obtain ⟨-, done⟩ | ⟨_, _, -, -, done⟩ | ⟨_, _, -, -, done⟩ :=
        destroy_cases table name <;> simp [done]
  | destroyAll =>
      obtain ⟨-, done⟩ | ⟨-, done⟩ := destroyAll_cases table <;> simp [done]
  | rename name newName =>
      obtain ⟨-, done⟩ | ⟨_, _, -, -, done⟩ | ⟨_, _, -, -, -, done⟩ | ⟨_, _, -, -, -, done⟩ :=
        rename_cases table name newName <;> simp [done]
  | swap name second =>
      obtain ⟨_, done, -⟩ | ⟨_, _, _, _, -, -, -, done⟩ := swap_cases table name second
      · rw [done]
      · rw [done]
        split <;> simp [exchanged]

end NamedSets.Table
