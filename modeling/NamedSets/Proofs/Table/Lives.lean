import NamedSets.Proofs.Table.Courses

/-!
# What a set keeps over its life

Between its creation and its removal a set keeps its name, its type and its family, unless it is
renamed or exchanged, and its storage keeps the parameters that it was created with. Only the
size of a hash changes: it grows.
-/

namespace NamedSets

/-! ## Storages -/

/-- A hash has the parameters of an earlier one, and may have grown. -/
structure AddressHash.Continues (hash later : AddressHash) : Prop where
  maxElements : later.maxElements = hash.maxElements
  netmask : later.netmask = hash.netmask
  grown : hash.hashSize ≤ later.hashSize

namespace AddressHash.Continues

variable {hash middle later : AddressHash}

theorem refl (hash : AddressHash) : hash.Continues hash := ⟨rfl, rfl, Nat.le_refl _⟩

theorem trans (first : hash.Continues middle) (second : middle.Continues later) :
    hash.Continues later :=
  ⟨second.maxElements.trans first.maxElements, second.netmask.trans first.netmask,
    Nat.le_trans first.grown second.grown⟩

theorem of_edit {kind : PacketChange} (edit : hash.Edit kind later) : hash.Continues later := by
  cases edit with
  | insert accepted =>
      obtain ⟨-, -, -, rfl⟩ := insert_ok accepted
      exact ⟨rfl, rfl, Nat.le_refl _⟩
  | @resize again _ accepted =>
      obtain ⟨-, rfl⟩ := resize_ok accepted
      exact ⟨rfl, rfl, Nat.le_mul_of_pos_right _ (by split <;> decide)⟩
  | erase accepted =>
      rw [erase_ok accepted]
      exact ⟨rfl, rfl, Nat.le_refl _⟩
  | clear => exact ⟨rfl, rfl, Nat.le_refl _⟩

end AddressHash.Continues

namespace Storage

variable {σ : Type} {storage middle later : Storage σ}

/-- A storage is of the kind of an earlier one and has its parameters; what is in a foreign one is
not known. -/
inductive Continues : Storage σ → Storage σ → Prop
  | hash {first later : AddressHash} (continues : first.Continues later) :
      Continues (.hash first) (.hash later)
  | list {first later : SetList} (size : later.size = first.size) :
      Continues (.list first) (.list later)
  | foreign (first later : σ) : Continues (.foreign first) (.foreign later)

theorem Continues.refl (storage : Storage σ) : storage.Continues storage := by
  cases storage with
  | hash hash => exact .hash (.refl hash)
  | list list => exact .list rfl
  | foreign inner => exact .foreign inner inner

theorem Continues.trans (first : storage.Continues middle) (second : middle.Continues later) :
    storage.Continues later := by
  cases first with
  | hash continues =>
      cases second with
      | hash further => exact .hash (continues.trans further)
  | list size =>
      cases second with
      | list same => exact .list (same.trans size)
  | foreign first middle =>
      cases second with
      | foreign _ later => exact .foreign first later

def hashSize? : Storage σ → Option Nat
  | hash current => some current.hashSize
  | _ => none

/-- A storage that has lived on has the parameters of a new one as long as its size is the same. -/
theorem Continues.sameParameters [ForeignStorage σ] {fresh : Storage σ}
    (continues : storage.Continues later) (builtin : ∀ inner, fresh ≠ .foreign inner)
    (same : storage.sameParameters fresh = true) :
    later.sameParameters fresh = decide (later.hashSize? = storage.hashSize?) := by
  cases continues with
  | @hash first current continues =>
      cases fresh with
      | hash made =>
          simp only [Storage.sameParameters, AddressHash.sameParameters, Bool.and_eq_true,
            decide_eq_true_eq] at same
          obtain ⟨⟨size, count⟩, netmask⟩ := same
          simp [Storage.sameParameters, AddressHash.sameParameters, hashSize?,
            continues.maxElements, continues.netmask, size, count, netmask]
      | list made => cases same
      | foreign inner => exact absurd rfl (builtin inner)
  | @list first current size =>
      cases fresh with
      | hash made => cases same
      | list made =>
          simp only [Storage.sameParameters, SetList.sameParameters, decide_eq_true_eq] at same
          simp [Storage.sameParameters, SetList.sameParameters, hashSize?, size, same]
      | foreign inner => exact absurd rfl (builtin inner)
  | foreign first current =>
      cases fresh with
      | hash made => cases same
      | list made => cases same
      | foreign inner => exact absurd rfl (builtin inner)

end Storage

/-! ## Sets -/

variable {σ : Type}

structure Entry.Continues (entry later : Entry σ) : Prop where
  name : later.name = entry.name
  type : later.type = entry.type
  family : later.family = entry.family
  storage : entry.storage.Continues later.storage

namespace Entry.Continues

variable {entry middle later : Entry σ}

theorem refl (entry : Entry σ) : entry.Continues entry := ⟨rfl, rfl, rfl, .refl entry.storage⟩

theorem trans (first : entry.Continues middle) (second : middle.Continues later) :
    entry.Continues later :=
  ⟨second.name.trans first.name, second.type.trans first.type, second.family.trans first.family,
    first.storage.trans second.storage⟩

theorem release (entry : Entry σ) : entry.Continues entry.release := by
  unfold Entry.release
  split <;> exact ⟨rfl, rfl, rfl, .refl entry.storage⟩

end Entry.Continues

namespace Table

variable {table after : Table σ} {id other : Nat} {entry : Entry σ}

/-- The set in a slot lives on in it. -/
def Continues (table after : Table σ) (id : Nat) : Prop :=
  ∀ entry, table.get? id = some entry → ∃ later, after.get? id = some later ∧ entry.Continues later

namespace Continues

theorem refl (table : Table σ) (id : Nat) : table.Continues table id :=
  fun entry found => ⟨entry, found, .refl entry⟩

theorem trans {middle : Table σ} (first : table.Continues middle id)
    (second : middle.Continues after id) : table.Continues after id := by
  intro entry found
  obtain ⟨current, there, continues⟩ := first entry found
  obtain ⟨later, present, further⟩ := second current there
  exact ⟨later, present, continues.trans further⟩

theorem modify {change : Entry σ → Entry σ}
    (continues : ∀ entry, table.get? other = some entry → entry.Continues (change entry)) :
    table.Continues (table.modify other change) id := by
  intro entry found
  rw [get_modify]
  split
  · rename_i same
    subst same
    exact ⟨change entry, by rw [found, Option.map_some], continues entry found⟩
  · exact ⟨entry, found, .refl entry⟩

theorem release (table : Table σ) (other id : Nat) : table.Continues (table.release other) id :=
  modify fun entry _ => .release entry

theorem setStorage {old new : Storage σ} (stored : table.storage? other = some old)
    (continues : old.Continues new) : table.Continues (table.setStorage other new) id := by
  refine modify fun entry found => ⟨rfl, rfl, rfl, ?_⟩
  cases stored.symm.trans (storage_of_get found rfl)
  exact continues

theorem set {content : Option (Entry σ)} (inside : other < table.capacity) (apart : other ≠ id) :
    table.Continues (table.set other content) id := by
  intro entry found
  rw [get_set_inside inside, if_neg apart]
  exact ⟨entry, found, .refl entry⟩

theorem edits {kind : PacketChange} (edits : Edits kind table after) :
    table.Continues after id := by
  refine edits.induction (table.Continues · id) (.refl table id) fun middle later before edit =>
    before.trans ?_
  cases edit with
  | hold slot => exact modify fun entry _ => ⟨rfl, rfl, rfl, .refl entry.storage⟩
  | release slot => exact .release middle slot id
  | hash stored edit => exact setStorage stored (.hash (.of_edit edit))
  | list stored new size => exact setStorage stored (.list size)
  | foreign stored new => exact setStorage stored (.foreign _ new)

theorem create [ForeignStorage σ] (found : table.get? id = some entry) (creation : Creation)
    (type : SetType σ) (storage : Storage σ) :
    table.Continues (table.create creation type storage).1 id := by
  obtain ⟨_, _, -, refused⟩ | ⟨-, -, refused⟩ | ⟨slot, -, free, created⟩ :=
    create_cases table creation type storage
  · rw [refused]
    exact .refl table id
  · rw [refused]
    exact .refl table id
  · rw [created]
    obtain ⟨vacant, inside, -⟩ := get_eq_none_of_free free
    refine set inside ?_
    rintro rfl
    simp [vacant] at found

variable {name : String}

/-- A set of another name is in another slot. -/
theorem slot_ne (found : table.get? id = some entry) {removed : Entry σ}
    (there : table.lookup? name = some (other, removed)) (apart : name ≠ entry.name.text) :
    other ≠ id := by
  rintro rfl
  obtain ⟨-, occupied, named⟩ := get_of_lookup there
  cases found.symm.trans occupied
  exact apart named.symm

theorem destroy (found : table.get? id = some entry) (apart : name ≠ entry.name.text) :
    table.Continues (table.destroy name).1 id := by
  obtain ⟨-, refused⟩ | ⟨_, _, -, -, refused⟩ | ⟨slot, removed, there, -, gone⟩ :=
    destroy_cases table name
  · rw [refused]
    exact .refl table id
  · rw [refused]
    exact .refl table id
  · rw [gone]
    have inside := lt_capacity_of_get (get_of_lookup there).2.1
    exact foldl_preserves (table.Continues · id)
      (fun middle member before => before.trans (.release middle member id)) _
      (set inside (slot_ne found there apart))

theorem rename (found : table.get? id = some entry) (apart : name ≠ entry.name.text)
    (newName : SetName) : table.Continues (table.rename name newName).1 id := by
  obtain ⟨-, refused⟩ | ⟨_, _, -, -, refused⟩ | ⟨_, _, -, -, -, refused⟩ |
      ⟨slot, renamed, there, -, -, changed⟩ := rename_cases table name newName
  · rw [refused]
    exact .refl table id
  · rw [refused]
    exact .refl table id
  · rw [refused]
    exact .refl table id
  · rw [changed]
    have inside := lt_capacity_of_get (get_of_lookup there).2.1
    exact set inside (slot_ne found there apart)

theorem swap (found : table.get? id = some entry) {second : String}
    (apart : name ≠ entry.name.text) (secondApart : second ≠ entry.name.text) :
    table.Continues (table.swap name second).1 id := by
  obtain ⟨_, refused, -⟩ | ⟨slot, first, secondSlot, last, there, secondThere, -, swapped⟩ :=
    swap_cases table name second
  · rw [refused]
    exact .refl table id
  · rw [swapped]
    split
    · exact .refl table id
    · intro same present
      rw [get_exchanged (get_of_lookup there).2.1 (get_of_lookup secondThere).2.1,
        if_neg (slot_ne found secondThere secondApart), if_neg (slot_ne found there apart)]
      exact ⟨same, present, .refl same⟩

end Continues

end Table

end NamedSets
