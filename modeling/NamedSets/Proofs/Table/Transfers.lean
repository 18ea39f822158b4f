import NamedSets.Proofs.Table.Accounts

namespace NamedSets.Table

variable {σ : Type} {table middle after : Table σ} {id : Nat} {entry : Entry σ}

theorem toNat_references_hold (room : entry.references.toNat + 1 < UInt32.size) :
    entry.hold.references.toNat = entry.references.toNat + 1 := by
  rw [Entry.hold, UInt32.toNat_add]
  exact Nat.mod_eq_of_lt room

theorem references_hold (room : entry.references.toNat + 1 < UInt32.size) :
    entry.hold.references ≠ 0 := by
  intro none
  have count := congrArg UInt32.toNat none
  rw [toNat_references_hold room] at count
  contradiction

theorem entry_release_hold (room : entry.references.toNat + 1 < UInt32.size) :
    entry.hold.release = entry := by
  rw [Entry.release, if_neg (references_hold room)]
  simp [Entry.hold]

/-- A reference that is taken and given back leaves no trace. -/
theorem release_hold (found : table.get? id = some entry)
    (room : entry.references.toNat + 1 < UInt32.size) :
    (table.hold id).release id = table := by
  apply ext_get (by simp)
  intro other
  rw [release, hold, get_modify, get_modify]
  by_cases same : id = other
  · subst same
    simp [found, entry_release_hold room]
  · simp [same]

/-- A table in which every reference that was taken has been given back. A count that was full
has come to nothing by it. -/
structure Repaid (table after : Table σ) : Prop where
  capacity : after.capacity = table.capacity
  slots : ∀ slot, after.get? slot = table.get? slot ∨
    ∃ entry, table.get? slot = some entry ∧ entry.references.toNat + 1 = UInt32.size ∧
      after.get? slot = some { entry with references := 0 }

namespace Repaid

theorem refl (table : Table σ) : Repaid table table := ⟨rfl, fun _ => .inl rfl⟩

theorem trans (first : Repaid table middle) (second : Repaid middle after) :
    Repaid table after := by
  refine ⟨second.capacity.trans first.capacity, fun slot => ?_⟩
  obtain same | ⟨entry, there, full, emptied⟩ := second.slots slot
  · rw [same]
    exact first.slots slot
  · obtain before | ⟨first, _, _, before⟩ := first.slots slot
    · exact .inr ⟨entry, before ▸ there, full, emptied⟩
    · cases there.symm.trans before
      simp [UInt32.size] at full

theorem release_hold (table : Table σ) (id : Nat) : Repaid table ((table.hold id).release id) := by
  refine ⟨by simp, fun slot => ?_⟩
  rw [release, hold, get_modify, get_modify]
  by_cases same : id = slot
  · subst same
    rw [if_pos rfl, if_pos rfl]
    cases found : table.get? id with
    | none => exact .inl rfl
    | some entry =>
        by_cases room : entry.references.toNat + 1 < UInt32.size
        · exact .inl (congrArg some (entry_release_hold room))
        · have full : entry.references.toNat + 1 = UInt32.size :=
            Nat.le_antisymm entry.references.toNat_lt_size (Nat.not_lt.mp room)
          have emptied : entry.hold.references = 0 := by
            apply UInt32.toNat_inj.mp
            rw [Entry.hold, UInt32.toNat_add]
            change (entry.references.toNat + 1) % UInt32.size = 0
            rw [full, Nat.mod_self]
          refine .inr ⟨entry, rfl, full, congrArg some ?_⟩
          rw [Entry.release, if_pos emptied, ← emptied, Entry.hold]
  · rw [if_neg same, if_neg same]
    exact .inl rfl

end Repaid

def Room (table : Table σ) : Prop :=
  ∀ id entry, table.get? id = some entry → entry.references.toNat + 1 < UInt32.size

namespace Sound

variable {outside later : List Nat} {closed : Prop}

/-! ## References from outside -/

/-- Another reference count for the set in a slot, with the outside to match. -/
theorem recount (sound : table.Sound outside closed) (found : table.get? id = some entry)
    (count : UInt32)
    (balance : ∀ target, later.count target + (if id = target then entry.references.toNat else 0) =
      outside.count target + (if id = target then count.toNat else 0)) :
    (table.set id (some { entry with references := count })).Sound later closed := by
  have valid := sound.valid found
  have plain := sound.plain_of_get found
  refine sound.replace found ⟨valid.builtin, valid.distinct, valid.bounded⟩ rfl plain
    fun target => ?_
  have total := balance target
  dsimp only
  omega

theorem hold (sound : table.Sound outside closed) (found : table.get? id = some entry)
    (room : entry.references.toNat + 1 < UInt32.size) : (table.hold id).Sound (id :: outside) closed := by
  have counted : (entry.references + 1).toNat = entry.references.toNat + 1 :=
    toNat_references_hold room
  rw [Table.hold, modify_eq_set found]
  refine sound.recount found (entry.references + 1) fun target => ?_
  by_cases same : id = target
  · subst same
    rw [List.count_cons_self, if_pos rfl, if_pos rfl, counted]
    omega
  · rw [List.count_cons_of_ne same, if_neg same, if_neg same]

theorem release (sound : table.Sound (id :: outside) closed) : (table.release id).Sound outside closed := by
  obtain ⟨entry, found, used⟩ := sound.references_ne_zero List.mem_cons_self
  have positive : 0 < entry.references.toNat := by
    refine Nat.pos_of_ne_zero fun zero => used ?_
    exact UInt32.toNat_inj.mp zero
  have counted : (entry.references - 1).toNat = entry.references.toNat - 1 :=
    UInt32.toNat_sub_of_le _ _ (UInt32.le_iff_toNat_le.mpr positive)
  have lowered : entry.release = { entry with references := entry.references - 1 } :=
    if_neg used
  rw [Table.release, modify_eq_set found, lowered]
  refine sound.recount found (entry.references - 1) fun target => ?_
  by_cases same : id = target
  · subst same
    rw [List.count_cons_self, if_pos rfl, if_pos rfl, counted]
    omega
  · rw [List.count_cons_of_ne same, if_neg same, if_neg same]

theorem releaseAll {ids : List Nat} (sound : table.Sound (ids ++ outside) closed) :
    (table.releaseAll ids).Sound outside closed := by
  induction ids generalizing table with
  | nil => exact sound
  | cons id rest ih => exact ih sound.release

/-! ## References of storages -/

/-- A storage of the same kind may take the place of another if the references that leave
the members go to the outside, and those that enter come from it. -/
theorem setStorage {storage : Storage σ} (sound : table.Sound outside closed)
    (found : table.get? id = some entry) (valid : ({ entry with storage } : Entry σ).Valid closed)
    (plain : ∀ member ∈ storage.members, table.Plain member)
    (conserved : (later ++ storage.members).Perm (outside ++ entry.storage.members)) :
    (table.setStorage id storage).Sound later closed := by
  rw [setStorage_eq_set found]
  refine sound.replace found valid rfl plain fun target => ?_
  have same := conserved.count_eq target
  rw [List.count_append, List.count_append] at same
  simp only [same]

theorem setHash (sound : table.Sound outside closed) {old : AddressHash}
    (found : table.get? id = some entry) (stored : entry.storage = .hash old)
    (new : AddressHash) : (table.setStorage id (.hash new)).Sound outside closed := by
  have valid : ({ entry with storage := .hash new } : Entry σ).Valid closed := by
    refine ⟨fun isClosed => ?_, List.nodup_nil, by simp⟩
    have builtin := (sound.valid found).builtin isClosed
    rwa [Entry.Builtin, stored] at builtin
  refine sound.setStorage found valid (by simp [Storage.members]) ?_
  simp [stored, Storage.members]

theorem setList (sound : table.Sound outside closed) {old new : SetList}
    (found : table.get? id = some entry) (stored : entry.storage = .list old)
    (distinct : new.members.Nodup) (bounded : new.members.length ≤ new.size.toNat)
    (plain : ∀ member ∈ new.members, table.Plain member)
    (conserved : (later ++ new.members).Perm (outside ++ old.members)) :
    (table.setStorage id (.list new)).Sound later closed := by
  have valid : ({ entry with storage := .list new } : Entry σ).Valid closed := by
    refine ⟨fun isClosed => ?_, distinct, ?_⟩
    · have builtin := (sound.valid found).builtin isClosed
      rwa [Entry.Builtin, stored] at builtin
    · rintro _ ⟨⟩
      exact bounded
  refine sound.setStorage found valid plain ?_
  simpa [stored, Storage.members] using conserved

/-- A storage from outside holds no references, whatever becomes of it. -/
theorem setForeign (sound : table.Sound outside closed) {old : σ}
    (found : table.get? id = some entry) (stored : entry.storage = .foreign old) (new : σ) :
    (table.setStorage id (.foreign new)).Sound outside closed := by
  have valid : ({ entry with storage := .foreign new } : Entry σ).Valid closed := by
    refine ⟨fun isClosed => ?_, List.nodup_nil, by simp⟩
    have builtin := (sound.valid found).builtin isClosed
    rwa [Entry.Builtin, stored] at builtin
  refine sound.setStorage found valid (by simp [Storage.members]) ?_
  simp [stored, Storage.members]

/-! ## References of whole sets -/

theorem empty (capacity : Nat) : (Table.empty capacity : Table σ).Sound [] closed where
  valid found := by simp at found
  plain present := by simp [members, membersOf] at present
  counted id := by
    have none : ∀ slot, (Table.empty capacity : Table σ).members slot = [] := fun slot =>
      members_eq_nil_of_get (get_empty capacity slot)
    rw [references_eq_zero_of_get (get_empty capacity id),
      referrers_eq_zero_iff.mpr fun slot => by simp [none], List.count_nil]

/-- A new set in an empty slot is referred to by nobody and refers to nobody. -/
theorem insert (sound : table.Sound outside closed) (inside : id < table.capacity)
    (vacant : table.get? id = none) (builtin : closed → entry.Builtin)
    (unused : entry.references = 0) (empty : entry.storage.members = []) :
    (table.set id (some entry)).Sound outside closed := by
  apply sound.set inside
  · rintro _ ⟨⟩
    refine ⟨builtin, by simp [empty], fun list stored => ?_⟩
    have none : list.members = [] := by simpa [stored, Storage.members] using empty
    simp [none]
  · intro slot member present
    have before : table.Plain member := by
      rw [members_set inside] at present
      split at present
      · simp [membersOf, empty] at present
      · exact sound.plain present
    refine before.set inside fun same => ?_
    obtain ⟨other, there, -⟩ := before
    rw [← same, vacant] at there
    contradiction
  · intro target
    simp [membersOf, empty, members_eq_nil_of_get vacant, references_eq_zero_of_get vacant,
      referencesOf, unused]

/-- The references of a set that is removed go to the outside. -/
theorem remove (sound : table.Sound outside closed) (found : table.get? id = some entry)
    (unused : entry.references = 0) :
    (table.set id none).Sound (entry.storage.members ++ outside) closed := by
  have inside := lt_capacity_of_get found
  have unlisted := (sound.unreferenced found unused).1
  apply sound.set inside
  · intro new impossible
    contradiction
  · intro slot member present
    rw [members_set inside] at present
    split at present
    · simp [membersOf] at present
    · refine (sound.plain present).set inside fun same => ?_
      rw [← same] at present
      exact absurd present (unlisted slot)
  · intro target
    simp [membersOf, members_of_get found, references_of_get found, referencesOf, unused,
      Nat.add_comm]

theorem rename (sound : table.Sound outside closed) (found : table.get? id = some entry)
    (newName : SetName) : (table.set id (some { entry with name := newName })).Sound outside closed := by
  have valid := sound.valid found
  have plain := sound.plain_of_get found
  exact sound.replace found ⟨valid.builtin, valid.distinct, valid.bounded⟩ rfl plain fun _ => rfl

/-- An exchange moves lists as a whole, so that as many sets as before refer to a slot, and
equal features keep members what they were. -/
theorem exchange (sound : table.Sound outside closed) {secondId : Nat} {first second : Entry σ}
    (found : table.get? id = some first) (secondFound : table.get? secondId = some second)
    (different : id ≠ secondId) (compatible : Compatible first second) :
    (table.exchanged id secondId first second).Sound outside closed := by
  have inside := lt_capacity_of_get found
  have secondInside : secondId < (table.set id (some (first.withContents second))).capacity := by
    rw [capacity_set]
    exact lt_capacity_of_get secondFound
  have listed (slot : Nat) : (table.exchanged id secondId first second).members slot =
      if secondId = slot then first.storage.members
      else if id = slot then second.storage.members else table.members slot := by
    rw [exchanged, members_set secondInside, members_set inside]
    rfl
  refine ⟨?_, ?_, ?_⟩
  · intro slot entry there
    rw [get_exchanged found secondFound] at there
    have firstValid := sound.valid found
    have secondValid := sound.valid secondFound
    split at there
    · cases there
      exact ⟨firstValid.builtin, firstValid.distinct, firstValid.bounded⟩
    · split at there
      · cases there
        exact ⟨secondValid.builtin, secondValid.distinct, secondValid.bounded⟩
      · exact sound.valid there
  · intro slot member present
    have before : table.Plain member := by
      rw [listed] at present
      split at present
      · exact sound.plain_of_get found member present
      · split at present
        · exact sound.plain_of_get secondFound member present
        · exact sound.plain present
    have middle : (table.set id (some (first.withContents second))).Plain member := by
      refine before.set inside fun same => ⟨_, rfl, ?_⟩
      obtain ⟨entry, there, ordinary⟩ := before
      subst same
      cases found.symm.trans there
      exact compatible.1.symm ▸ ordinary
    refine middle.set secondInside fun same => ⟨_, rfl, ?_⟩
    obtain ⟨entry, there, ordinary⟩ := before
    subst same
    cases secondFound.symm.trans there
    exact compatible.1 ▸ ordinary
  · intro target
    have taken := referrers_set inside (some (first.withContents second)) target
    have given := referrers_set secondInside (some (second.withContents first)) target
    have stays : (table.set id (some (first.withContents second))).members secondId =
        second.storage.members := by
      rw [members_set inside, if_neg different, members_of_get secondFound]
    rw [members_of_get found] at taken
    rw [stays] at given
    have referred : (table.exchanged id secondId first second).referrers target =
        table.referrers target := by
      change _ + _ = _ + (if target ∈ second.storage.members then 1 else 0) at taken
      change _ + _ = _ + (if target ∈ first.storage.members then 1 else 0) at given
      unfold exchanged
      omega
    rw [referred, ← sound.counted, exchanged, references_set secondInside, references_set inside]
    split
    · rename_i same
      rw [← same, references_of_get secondFound]
      rfl
    · split
      · rename_i same
        rw [← same, references_of_get found]
        rfl
      · rfl

end Sound

end NamedSets.Table
