import NamedSets.Proofs.Table.Stability

namespace NamedSets

theorem Maker.make_cases {σ : Type} [ForeignStorage σ] {maker : Maker σ} {family : Family}
    {data : List Datum} {storage : Storage σ} (made : maker.make family data = .ok storage) :
    (∃ hash, AddressHash.create family data = .ok hash ∧ storage = .hash hash) ∨
      storage = .list (SetList.create data) ∨ ∃ inner, storage = .foreign inner := by
  cases maker with
  | addressHash =>
      simp only [make] at made
      split at made
      · rename_i hash created
        cases made
        exact .inl ⟨hash, created, rfl⟩
      · contradiction
  | setList =>
      cases made
      exact .inr (.inl rfl)
  | foreign blank =>
      simp only [make] at made
      split at made
      · cases made
        exact .inr (.inr ⟨_, rfl⟩)
      · contradiction

namespace Table

variable {σ : Type} {table after : Table σ} {id : Nat} {entry later : Entry σ}
  {kind : PacketChange} {swapped : List String} {hash : AddressHash}

/-- What an operation that may exchange the sets of some names does to a table. -/
inductive Course [ForeignStorage σ] (swapped : List String) (table : Table σ) : Table σ → Prop
  | edits {after : Table σ} (kind : PacketChange) (edits : Edits kind table after) :
      Course swapped table after
  | create (creation : Creation) {data : List Datum} {type : SetType σ} {storage : Storage σ}
      (made : type.maker.make creation.family data = .ok storage) :
      Course swapped table (table.create creation type storage).1
  | destroy (name : String) : Course swapped table (table.destroy name).1
  | destroyAll : Course swapped table table.destroyAll.1
  | rename (name : String) (newName : SetName) : Course swapped table (table.rename name newName).1
  | swap (name second : String) (named : name ∈ swapped) (secondNamed : second ∈ swapped) :
      Course swapped table (table.swap name second).1

theorem Course.refl [ForeignStorage σ] (swapped : List String) (table : Table σ) :
    Course swapped table table := .edits .add (.refl table)

theorem Course.reform [ForeignStorage σ] (course : Course swapped table after) :
    table.Reform after := by
  cases course with
  | edits kind edits => exact .labels (.of_edits edits)
  | create creation made => exact .create creation _ _
  | destroy name => exact .destroy name
  | destroyAll => exact .destroyAll
  | rename name newName => exact .rename name newName
  | swap name second named secondNamed => exact .swap name second

/-! ## What every storage keeps -/

/-- What goes on to hold of a storage when elements of it are edited. -/
structure Enduring (holds : Family → Storage σ → Prop) : Prop where
  hash : ∀ {family : Family} {old new : AddressHash} {kind : PacketChange},
    holds family (.hash old) → old.Edit kind new → holds family (.hash new)
  list : ∀ {family : Family} {old new : SetList},
    holds family (.list old) → new.size = old.size → holds family (.list new)
  foreign : ∀ {family : Family} {old new : σ},
    holds family (.foreign old) → holds family (.foreign new)

/-- What holds, moreover, of every storage that is made for a family. -/
structure Lasting [ForeignStorage σ] (holds : Family → Storage σ → Prop) : Prop
    extends Enduring holds where
  made : ∀ {maker : Maker σ} {family : Family} {data : List Datum} {storage : Storage σ},
    maker.make family data = .ok storage → holds family storage

def Throughout (table : Table σ) (holds : Family → Storage σ → Prop) : Prop :=
  ∀ id entry, table.get? id = some entry → holds entry.family entry.storage

namespace Throughout

variable {holds : Family → Storage σ → Prop}

theorem empty (capacity : Nat) : (empty capacity : Table σ).Throughout holds := by
  intro id entry found
  rw [get_empty] at found
  contradiction

theorem modify {change : Entry σ → Entry σ} (all : table.Throughout holds)
    (keeps : ∀ entry, table.get? id = some entry →
      holds (change entry).family (change entry).storage) :
    (table.modify id change).Throughout holds := by
  intro slot entry found
  rw [get_modify] at found
  split at found
  · rename_i same
    subst same
    obtain ⟨before, there, rfl⟩ := Option.map_eq_some_iff.mp found
    exact keeps before there
  · exact all slot entry found

theorem set {content : Option (Entry σ)} (all : table.Throughout holds)
    (inside : id < table.capacity)
    (fits : ∀ new, content = some new → holds new.family new.storage) :
    (table.set id content).Throughout holds := by
  intro slot entry found
  rw [get_set_inside inside] at found
  split at found
  · exact fits entry found
  · exact all slot entry found

theorem release (all : table.Throughout holds) (id : Nat) :
    (table.release id).Throughout holds := by
  refine all.modify fun entry found => ?_
  unfold Entry.release
  split <;> exact all id entry found

theorem releaseAll (all : table.Throughout holds) (ids : List Nat) :
    (table.releaseAll ids).Throughout holds :=
  foldl_preserves (Throughout · holds) (fun _ id before => before.release id) ids all

theorem setStorage {old storage : Storage σ} (all : table.Throughout holds)
    (stored : table.storage? id = some old)
    (fits : ∀ family, holds family old → holds family storage) :
    (table.setStorage id storage).Throughout holds := by
  refine all.modify fun entry found => fits entry.family ?_
  cases stored.symm.trans (storage_of_get found rfl)
  exact all id entry found

theorem destroy (all : table.Throughout holds) (name : String) :
    (table.destroy name).1.Throughout holds := by
  obtain ⟨-, refused⟩ | ⟨_, _, -, -, refused⟩ | ⟨id, entry, found, -, removed⟩ :=
    destroy_cases table name
  · rwa [refused]
  · rwa [refused]
  · rw [removed]
    have inside := lt_capacity_of_get (get_of_lookup found).2.1
    exact (all.set inside (by simp)).releaseAll _

theorem destroyAll (all : table.Throughout holds) : table.destroyAll.1.Throughout holds := by
  obtain ⟨-, refused⟩ | ⟨-, removed⟩ := destroyAll_cases table
  · rwa [refused]
  · rw [removed]
    exact .empty table.capacity

theorem rename (all : table.Throughout holds) (name : String) (newName : SetName) :
    (table.rename name newName).1.Throughout holds := by
  obtain ⟨-, refused⟩ | ⟨_, _, -, -, refused⟩ | ⟨_, _, -, -, -, refused⟩ |
      ⟨id, entry, found, -, -, renamed⟩ := rename_cases table name newName
  · rwa [refused]
  · rwa [refused]
  · rwa [refused]
  · rw [renamed]
    have there := (get_of_lookup found).2.1
    refine all.set (lt_capacity_of_get there) fun new same => ?_
    cases same
    exact all id entry there

theorem swap (all : table.Throughout holds) (name second : String) :
    (table.swap name second).1.Throughout holds := by
  obtain ⟨_, refused, -⟩ | ⟨id, entry, secondId, other, found, secondFound, -, swapped⟩ :=
    swap_cases table name second
  · rwa [refused]
  · rw [swapped]
    have there := (get_of_lookup found).2.1
    have secondThere := (get_of_lookup secondFound).2.1
    split
    · exact all
    · intro slot set present
      rw [get_exchanged there secondThere] at present
      split at present
      · cases present
        exact all id entry there
      · split at present
        · cases present
          exact all secondId other secondThere
        · exact all slot set present

theorem edits (all : table.Throughout holds) (enduring : Enduring holds)
    (edits : Edits kind table after) : after.Throughout holds := by
  refine edits.induction (Throughout · holds) all fun middle later all edit => ?_
  cases edit with
  | hold id => exact all.modify fun entry found => all id entry found
  | release id => exact all.release id
  | hash stored edit => exact all.setStorage stored fun _ held => enduring.hash held edit
  | list stored new size => exact all.setStorage stored fun _ held => enduring.list held size
  | foreign stored new => exact all.setStorage stored fun _ held => enduring.foreign held

theorem create {type : SetType σ} {storage : Storage σ} [ForeignStorage σ]
    (all : table.Throughout holds) (creation : Creation) (fits : holds creation.family storage) :
    (table.create creation type storage).1.Throughout holds := by
  obtain ⟨_, _, -, refused⟩ | ⟨-, -, refused⟩ | ⟨id, -, free, created⟩ :=
    create_cases table creation type storage
  · rwa [refused]
  · rwa [refused]
  · rw [created]
    refine all.set (get_eq_none_of_free free).2.1 fun new same => ?_
    cases same
    exact fits

theorem course [ForeignStorage σ] (lasting : Lasting holds) (all : table.Throughout holds)
    (course : Course swapped table after) : after.Throughout holds := by
  cases course with
  | edits kind edits => exact all.edits lasting.toEnduring edits
  | create creation made => exact all.create creation (lasting.made made)
  | destroy name => exact all.destroy name
  | destroyAll => exact all.destroyAll
  | rename name newName => exact all.rename name newName
  | swap name second named secondNamed => exact all.swap name second

end Throughout

/-! ## Hashes stay valid -/

def HashesValid (table : Table σ) : Prop :=
  ∀ id hash, table.storage? id = some (.hash hash) → hash.Valid

theorem hashesValid_iff : table.HashesValid ↔
    table.Throughout fun _ storage => ∀ hash, storage = .hash hash → hash.Valid := by
  constructor
  · exact fun valid id entry found hash stored => valid id hash (storage_of_get found stored)
  · intro all id hash stored
    obtain ⟨entry, found, same⟩ := Option.map_eq_some_iff.mp stored
    exact all id entry found hash same

theorem lasting_valid [ForeignStorage σ] :
    Lasting fun _ (storage : Storage σ) => ∀ hash, storage = .hash hash → hash.Valid where
  made := by
    rintro maker family data _ made hash rfl
    obtain ⟨_, created, same⟩ | same | ⟨_, same⟩ := Maker.make_cases made <;> cases same
    exact AddressHash.create_valid created
  hash := by
    rintro family old new kind valid edit _ ⟨⟩
    exact (valid old rfl).edit edit
  list := by simp
  foreign := by simp

theorem HashesValid.course [ForeignStorage σ] (valid : table.HashesValid)
    (course : Course swapped table after) : after.HashesValid :=
  hashesValid_iff.mpr ((hashesValid_iff.mp valid).course lasting_valid course)

/-! ## Storages from outside -/

def NoForeign (table : Table σ) : Prop :=
  table.Throughout fun _ storage => ∀ inner, storage ≠ .foreign inner

theorem enduring_noForeign :
    Enduring fun _ (storage : Storage σ) => ∀ inner, storage ≠ .foreign inner where
  hash := by simp
  list := by simp
  foreign {_ old _} builtin := absurd rfl (builtin old)

theorem NoForeign.edits (noForeign : table.NoForeign) (edits : Edits kind table after) :
    after.NoForeign :=
  Throughout.edits noForeign enduring_noForeign edits

/-! ## Sets that stay -/

/-- A slot that is occupied before and after goes on to be listed in the same pass. -/
theorem Reform.listedLast_eq [ForeignStorage σ] (reform : table.Reform after)
    (found : table.get? id = some entry) (present : after.get? id = some later) :
    later.type.features.listedLast = entry.type.features.listedLast := by
  have unchanged (same : after.get? id = table.get? id) :
      later.type.features.listedLast = entry.type.features.listedLast := by
    cases present.symm.trans (same.trans found)
    rfl
  cases reform with
  | labels same =>
      obtain ⟨other, there, -, sameType⟩ := same.get found
      cases there.symm.trans present
      rw [sameType]
  | create creation type storage =>
      obtain ⟨_, _, -, refused⟩ | ⟨-, -, refused⟩ | ⟨slot, -, free, created⟩ :=
        create_cases table creation type storage
      · exact unchanged (by rw [refused])
      · exact unchanged (by rw [refused])
      · obtain ⟨vacant, inside, -⟩ := get_eq_none_of_free free
        have other : slot ≠ id := by
          rintro rfl
          simp [vacant] at found
        exact unchanged (by rw [created, get_set_inside inside, if_neg other])
  | destroy name =>
      obtain ⟨-, refused⟩ | ⟨_, _, -, -, refused⟩ | ⟨slot, removedSet, there, -, removed⟩ :=
        destroy_cases table name
      · exact unchanged (by rw [refused])
      · exact unchanged (by rw [refused])
      · rw [removed] at present
        have inside := lt_capacity_of_get (get_of_lookup there).2.1
        obtain ⟨before, left, -, sameType⟩ :=
          (SameLabels.releaseAll (table.set slot none) removedSet.storage.members).symm.get present
        rw [get_set_inside inside] at left
        split at left
        · contradiction
        · cases found.symm.trans left
          rw [sameType]
  | destroyAll =>
      obtain ⟨-, refused⟩ | ⟨-, removed⟩ := destroyAll_cases table
      · exact unchanged (by rw [refused])
      · simp [removed] at present
  | rename name newName =>
      obtain ⟨-, refused⟩ | ⟨_, _, -, -, refused⟩ | ⟨_, _, -, -, -, refused⟩ |
          ⟨slot, renamedSet, there, -, -, renamed⟩ := rename_cases table name newName
      · exact unchanged (by rw [refused])
      · exact unchanged (by rw [refused])
      · exact unchanged (by rw [refused])
      · have occupied := (get_of_lookup there).2.1
        rw [renamed, get_set_inside (lt_capacity_of_get occupied)] at present
        split at present
        · rename_i same
          subst same
          cases occupied.symm.trans found
          cases present
          rfl
        · cases found.symm.trans present
          rfl
  | swap name second =>
      obtain ⟨_, refused, -⟩ |
          ⟨slot, first, secondSlot, other, there, secondThere, compatible, swapped⟩ :=
        swap_cases table name second
      · exact unchanged (by rw [refused])
      · have occupied := (get_of_lookup there).2.1
        have secondOccupied := (get_of_lookup secondThere).2.1
        by_cases same : slot = secondSlot
        · exact unchanged (by rw [swapped, if_pos same])
        · rw [swapped, if_neg same, get_exchanged occupied secondOccupied] at present
          split at present
          · rename_i here
            subst here
            cases secondOccupied.symm.trans found
            cases present
            exact congrArg Features.listedLast compatible.1
          · split at present
            · rename_i here
              subst here
              cases occupied.symm.trans found
              cases present
              exact congrArg Features.listedLast compatible.1.symm
            · cases found.symm.trans present
              rfl

/-- What every edit of a hash keeps, the hash in a slot keeps through edits of the table. -/
theorem Edits.hash_preserves {kept : AddressHash → Prop} (edits : Edits kind table after)
    (step : ∀ old new, kept old → old.Edit kind new → kept new)
    (stored : table.storage? id = some (.hash hash)) (before : kept hash) :
    ∃ new, after.storage? id = some (.hash new) ∧ kept new := by
  refine edits.induction (fun after => ∃ new, after.storage? id = some (.hash new) ∧ kept new)
    ⟨hash, stored, before⟩ fun middle later before edit => ?_
  obtain ⟨current, here, holds⟩ := before
  cases edit with
  | hold slot => exact ⟨current, by rwa [storage_hold], holds⟩
  | release slot => exact ⟨current, by rwa [storage_release], holds⟩
  | hash there edit =>
      rw [storage_setStorage there]
      split
      · rename_i same
        subst same
        cases here.symm.trans there
        exact ⟨_, rfl, step _ _ holds edit⟩
      · exact ⟨current, here, holds⟩
  | list there new =>
      rw [storage_setStorage there]
      split
      · rename_i same
        subst same
        cases here.symm.trans there
      · exact ⟨current, here, holds⟩
  | foreign there new =>
      rw [storage_setStorage there]
      split
      · rename_i same
        subst same
        cases here.symm.trans there
      · exact ⟨current, here, holds⟩

theorem Edits.hash_kept (edits : Edits kind table after)
    (stored : table.storage? id = some (.hash hash)) :
    ∃ new, after.storage? id = some (.hash new) ∧ hash.Keeps kind new :=
  edits.hash_preserves (fun _ _ keeps edit => keeps.trans edit.keeps) stored (.refl hash kind)

/-- The storage of a set that is in use and not exchanged stays, unless it is edited. -/
theorem Course.edits_or_storage_eq [ForeignStorage σ] (course : Course swapped table after)
    (found : table.get? id = some entry) (used : entry.references ≠ 0)
    (apart : entry.name.text ∉ swapped) :
    (∃ kind, Edits kind table after) ∨ after.storage? id = table.storage? id := by
  have elsewhere {slot : Nat} {other : Entry σ} (there : table.get? slot = some other)
      (different : other.references = 0 ∨ other.name.text ∈ swapped) : slot ≠ id := by
    rintro rfl
    cases found.symm.trans there
    exact different.elim used apart
  cases course with
  | edits kind edits => exact .inl ⟨kind, edits⟩
  | create creation made =>
      obtain ⟨_, _, -, refused⟩ | ⟨-, -, refused⟩ | ⟨slot, -, free, created⟩ :=
        create_cases table creation _ _
      · exact .inr (by rw [refused])
      · exact .inr (by rw [refused])
      · obtain ⟨vacant, inside, -⟩ := get_eq_none_of_free free
        have other : slot ≠ id := by
          rintro rfl
          simp [vacant] at found
        exact .inr (by rw [created, storage_set_inside inside, if_neg other])
  | destroy name =>
      obtain ⟨-, refused⟩ | ⟨_, _, -, -, refused⟩ | ⟨slot, removedSet, there, unused, removed⟩ :=
        destroy_cases table name
      · exact .inr (by rw [refused])
      · exact .inr (by rw [refused])
      · have occupied := (get_of_lookup there).2.1
        exact .inr (by rw [removed, storage_releaseAll,
          storage_set_inside (lt_capacity_of_get occupied),
          if_neg (elsewhere occupied (.inl unused))])
  | destroyAll =>
      obtain ⟨-, refused⟩ | ⟨unused, -⟩ := destroyAll_cases table
      · exact .inr (by rw [refused])
      · exact absurd (unused id entry found) used
  | rename name newName =>
      obtain ⟨-, refused⟩ | ⟨_, _, -, -, refused⟩ | ⟨_, _, -, -, -, refused⟩ |
          ⟨slot, renamedSet, there, unused, -, renamed⟩ := rename_cases table name newName
      · exact .inr (by rw [refused])
      · exact .inr (by rw [refused])
      · exact .inr (by rw [refused])
      · have occupied := (get_of_lookup there).2.1
        exact .inr (by rw [renamed, storage_set_inside (lt_capacity_of_get occupied),
          if_neg (elsewhere occupied (.inl unused))])
  | swap name second named secondNamed =>
      obtain ⟨_, refused, -⟩ |
          ⟨slot, first, secondSlot, other, there, secondThere, -, exchanged⟩ :=
        swap_cases table name second
      · exact .inr (by rw [refused])
      · obtain ⟨-, occupied, firstName⟩ := get_of_lookup there
        obtain ⟨-, secondOccupied, secondName⟩ := get_of_lookup secondThere
        rw [← firstName] at named
        rw [← secondName] at secondNamed
        refine .inr ?_
        rw [exchanged]
        split
        · rfl
        · rw [storage?, get_exchanged occupied secondOccupied,
            if_neg (elsewhere secondOccupied (.inr secondNamed)),
            if_neg (elsewhere occupied (.inr named)), storage?]

/-- A hash that is in use and not exchanged is only edited. -/
theorem Course.hash_kept [ForeignStorage σ] (course : Course swapped table after)
    (found : table.get? id = some entry) (stored : entry.storage = .hash hash)
    (used : entry.references ≠ 0) (apart : entry.name.text ∉ swapped) :
    ∃ kind new, after.storage? id = some (.hash new) ∧ hash.Keeps kind new := by
  have before := storage_of_get found stored
  obtain ⟨kind, edits⟩ | same := course.edits_or_storage_eq found used apart
  · exact ⟨kind, edits.hash_kept before⟩
  · exact ⟨.add, hash, same.trans before, .refl hash .add⟩

end Table

end NamedSets
