import NamedSets.Proofs.Table.Members
import NamedSets.Proofs.Table.Packets
import NamedSets.Proofs.Table.Transfers

/-!
# Balance

Every operation of a table leaves its accounts sound. Adds take a reference before they
know whether they keep it, so they need room for one more than there are afterwards.
-/

namespace NamedSets.Table

variable {σ : Type} {table after : Table σ} {outside : List Nat} {id : Nat} {closed : Prop}

/-! ## Members only grow when elements are added -/

structure Grows (table after : Table σ) : Prop where
  capacity : after.capacity = table.capacity
  members : ∀ slot, table.members slot ⊆ after.members slot

namespace Grows

theorem refl (table : Table σ) : Grows table table := ⟨rfl, fun _ => List.Subset.refl _⟩

theorem trans {middle : Table σ} (first : Grows table middle) (second : Grows middle after) :
    Grows table after :=
  ⟨second.capacity.trans first.capacity,
    fun slot => List.Subset.trans (first.members slot) (second.members slot)⟩

theorem modify (table : Table σ) (id : Nat) {change : Entry σ → Entry σ}
    (grows : ∀ entry, table.get? id = some entry →
      entry.storage.members ⊆ (change entry).storage.members) :
    Grows table (table.modify id change) := by
  refine ⟨capacity_modify table id change, fun slot => ?_⟩
  cases found : table.get? slot with
  | none => simp [members_eq_nil_of_get found]
  | some entry =>
      rw [members_of_get found]
      by_cases same : id = slot
      · subst same
        have changed : (table.modify id change).get? id = some (change entry) := by
          rw [get_modify, if_pos rfl, found, Option.map_some]
        rw [members_of_get changed]
        exact grows entry found
      · have kept : (table.modify id change).get? slot = some entry := by
          rw [get_modify, if_neg same, found]
        rw [members_of_get kept]
        exact List.Subset.refl _

theorem hold (table : Table σ) (id : Nat) : Grows table (table.hold id) :=
  modify table id fun _ _ => List.Subset.refl _

theorem release (table : Table σ) (id : Nat) : Grows table (table.release id) :=
  modify table id fun entry _ => by
    unfold Entry.release
    split <;> exact List.Subset.refl _

theorem setStorage {entry : Entry σ} {storage : Storage σ} (found : table.get? id = some entry)
    (grows : entry.storage.members ⊆ storage.members) :
    Grows table (table.setStorage id storage) :=
  modify table id fun other there => by
    cases found.symm.trans there
    exact grows

theorem referrers_le (grows : Grows table after) (target : Nat) :
    table.referrers target ≤ after.referrers target := by
  unfold referrers
  rw [grows.capacity]
  refine List.countP_mono_left fun slot _ present => ?_
  exact decide_eq_true (grows.members slot (of_decide_eq_true present))

end Grows

/-- Each set can be referred to once more than it is. -/
def Bounded (table : Table σ) (outside : List Nat) : Prop :=
  ∀ id, table.referrers id + outside.count id + 1 < UInt32.size

theorem Bounded.of_grows (bounded : after.Bounded outside) (grows : Grows table after) :
    table.Bounded outside := by
  intro id
  have more := grows.referrers_le id
  have room := bounded id
  omega

theorem Sound.room (sound : table.Sound outside closed) (bounded : table.Bounded outside) :
    table.Room := by
  intro id entry found
  rw [sound.counted_of_get found]
  exact bounded id

/-! ## Adding elements -/

theorem Sound.add {entry : Entry σ} {list : SetList} (sound : table.Sound outside closed)
    (room : table.Room) (found : table.get? id = some entry)
    (stored : entry.storage = .list list) (data : List Datum) :
    ((list.add table data).1.storing id (list.add table data).2 .list).1.Sound outside closed := by
  obtain ⟨fault, refused⟩ | ⟨place, member, -, named, outcome⟩ := list.add_cases table data
  · rw [refused]
    exact sound
  · obtain ⟨memberEntry, occupied, -⟩ := get_of_find named
    have held := sound.hold occupied (room member memberEntry occupied)
    obtain ⟨fault, -, refused⟩ | ⟨grown, accepted, added⟩ := outcome
    · rw [refused]
      exact held.release
    · rw [added]
      obtain ⟨memberSet, position, there, ordinary, fresh, placed, space, rfl⟩ :=
        SetList.insert_ok accepted
      have kept := (table.storage_hold member id).trans (storage_of_get found rfl)
      obtain ⟨holder, stillThere, sameStorage⟩ := Option.map_eq_some_iff.mp kept
      have stored' : holder.storage = .list list := sameStorage.trans stored
      have entered := SetList.perm_insertAt (SetList.positionFor_le placed) member
      have once := (held.valid stillThere).distinct
      have old := held.plain_of_get stillThere
      rw [stored'] at once old
      refine held.setList stillThere stored' ?_ ?_ ?_ ?_
      · exact entered.nodup_iff.mpr (List.nodup_cons.mpr ⟨fresh, once⟩)
      · rw [entered.length_eq]
        exact space
      · intro other present
        rcases List.mem_cons.mp (entered.mem_iff.mp present) with same | present
        · subst same
          exact ⟨memberSet, there, ordinary⟩
        · exact old other present
      · exact (entered.append_left outside).trans List.perm_middle

theorem grows_add {entry : Entry σ} {list : SetList} (found : table.get? id = some entry)
    (stored : entry.storage = .list list) (data : List Datum) :
    Grows table ((list.add table data).1.storing id (list.add table data).2 .list).1 := by
  obtain ⟨fault, refused⟩ | ⟨place, member, -, -, outcome⟩ := list.add_cases table data
  · rw [refused]
    exact .refl table
  · obtain ⟨fault, -, refused⟩ | ⟨grown, accepted, added⟩ := outcome
    · rw [refused]
      exact (Grows.hold table member).trans (.release _ member)
    · rw [added]
      obtain ⟨_, position, -, -, -, placed, -, rfl⟩ := SetList.insert_ok accepted
      have kept := (table.storage_hold member id).trans (storage_of_get found rfl)
      obtain ⟨holder, stillThere, sameStorage⟩ := Option.map_eq_some_iff.mp kept
      have entered := SetList.perm_insertAt (SetList.positionFor_le placed) member
      refine (Grows.hold table member).trans (.setStorage stillThere ?_)
      rw [sameStorage, stored]
      exact fun other present => entered.mem_iff.mpr (List.mem_cons_of_mem _ present)

section Storages

variable [ForeignStorage σ]

theorem Sound.addElement (sound : table.Sound outside closed) (room : table.Room) (id : Nat)
    (data : List Datum) : (table.addElement id data).1.Sound outside closed := by
  cases found : table.get? id with
  | none =>
      simp only [Table.addElement, found]
      exact sound
  | some entry =>
      cases stored : entry.storage with
      | hash hash =>
          simp only [Table.addElement, found, stored]
          cases hash.elementOfData data >>= hash.insert with
          | error fault => exact sound
          | ok grown => exact sound.setHash found stored grown
      | list list =>
          simp only [Table.addElement, found, stored]
          exact sound.add room found stored data
      | foreign storage =>
          simp only [Table.addElement, found, stored]
          exact sound.setForeign found stored _

theorem grows_addElement (table : Table σ) (id : Nat) (data : List Datum) :
    Grows table (table.addElement id data).1 := by
  cases found : table.get? id with
  | none =>
      simp only [addElement, found]
      exact .refl table
  | some entry =>
      cases stored : entry.storage with
      | hash hash =>
          simp only [addElement, found, stored]
          cases hash.elementOfData data >>= hash.insert with
          | error fault => exact .refl table
          | ok grown => exact .setStorage found (by simp [stored, Storage.members])
      | list list =>
          simp only [addElement, found, stored]
          exact grows_add found stored data
      | foreign storage =>
          simp only [addElement, found, stored]
          exact .setStorage found (by simp [stored, Storage.members])

theorem Sound.resize (sound : table.Sound outside closed) (id : Nat) (again : Bool) :
    (table.resize id again).1.Sound outside closed := by
  cases found : table.get? id with
  | none =>
      simp only [Table.resize, found]
      exact sound
  | some entry =>
      simp only [Table.resize, found]
      cases stored : entry.storage with
      | hash hash =>
          simp only [Storage.resize]
          split <;> exact sound.setHash found stored _
      | list list =>
          have distinct := (sound.valid found).distinct
          have plain := sound.plain_of_get found
          have bounded := (sound.valid found).bounded _ stored
          rw [stored] at distinct plain
          exact sound.setList found stored distinct bounded plain (.refl _)
      | foreign storage => exact sound.setForeign found stored _

theorem grows_resize (table : Table σ) (id : Nat) (again : Bool) :
    Grows table (table.resize id again).1 := by
  cases found : table.get? id with
  | none =>
      simp only [resize, found]
      exact .refl table
  | some entry =>
      simp only [resize, found]
      refine .setStorage found ?_
      cases entry.storage with
      | hash hash => simp [Storage.members]
      | list list => exact List.Subset.refl _
      | foreign storage => simp [Storage.members]

/-- Adding with resizes takes references one at a time. Since members only grow, room at
the end is room all along. -/
theorem Sound.addElementResizing {retries : Nat} {data : List Datum}
    (sound : table.Bounded outside → table.Sound outside closed)
    (bounded : (table.addElementResizing id retries data).1.Bounded outside) :
    (table.addElementResizing id retries data).1.Sound outside closed := by
  refine settle_preserves (fun table => table.Bounded outside → table.Sound outside closed)
    ?_ ?_ retries false sound bounded
  · intro middle before room
    have earlier := room.of_grows (grows_addElement middle id data)
    exact (before earlier).addElement ((before earlier).room earlier) id data
  · intro again middle before room
    have earlier := room.of_grows (grows_resize middle id again)
    exact (before earlier).resize id again

end Storages

/-! ## Removing elements -/

/-- A storage may be put in place before a reference is given back. -/
theorem setStorage_release (table : Table σ) (id member : Nat) (storage : Storage σ) :
    (table.release member).setStorage id storage =
      (table.setStorage id storage).release member := by
  apply ext_get (by simp)
  intro slot
  simp only [setStorage, release, get_modify]
  cases table.get? slot with
  | none => simp
  | some entry =>
      have commute : { entry.release with storage } =
          ({ entry with storage } : Entry σ).release := by
        unfold Entry.release
        split <;> rfl
      by_cases first : id = slot <;> by_cases second : member = slot <;>
        simp [first, second, commute]

theorem Sound.delete {entry : Entry σ} {list : SetList} (sound : table.Sound outside closed)
    (found : table.get? id = some entry) (stored : entry.storage = .list list)
    (data : List Datum) :
    ((list.delete table data).1.storing id (list.delete table data).2 .list).1.Sound
      outside closed := by
  obtain ⟨fault, refused⟩ | ⟨place, member, position, -, -, stands, deleted⟩ :=
    list.delete_cases table data
  · rw [refused]
    exact sound
  · rw [deleted]
    change ((table.release member).setStorage id _).Sound outside closed
    rw [setStorage_release]
    have taken := SetList.perm_eraseAt stands
    have distinct := (sound.valid found).distinct
    have plain := sound.plain_of_get found
    rw [stored] at distinct plain
    refine Sound.release (sound.setList found stored ?_ ?_ ?_ ?_)
    · exact (List.nodup_cons.mp (taken.nodup_iff.mpr distinct)).2
    · have fewer := taken.length_eq
      have bounded := (sound.valid found).bounded _ stored
      simp only [List.length_cons] at fewer
      change (list.eraseAt position).members.length ≤ list.size.toNat
      omega
    · exact fun other present => plain other (taken.mem_iff.mp (List.mem_cons_of_mem _ present))
    · exact List.perm_middle.symm.trans (taken.append_left outside)

section Storages

variable [ForeignStorage σ]

theorem Sound.deleteElement (sound : table.Sound outside closed) (id : Nat) (data : List Datum) :
    (table.deleteElement id data).1.Sound outside closed := by
  cases found : table.get? id with
  | none =>
      simp only [Table.deleteElement, found]
      exact sound
  | some entry =>
      cases stored : entry.storage with
      | hash hash =>
          simp only [Table.deleteElement, found, stored]
          cases hash.elementOfData data >>= hash.erase with
          | error fault => exact sound
          | ok shrunk => exact sound.setHash found stored shrunk
      | list list =>
          simp only [Table.deleteElement, found, stored]
          exact sound.delete found stored data
      | foreign storage =>
          simp only [Table.deleteElement, found, stored]
          exact sound.setForeign found stored _

theorem Sound.testElement (sound : table.Sound outside closed) (id : Nat) (data : List Datum) :
    (table.testElement id data).1.Sound outside closed := by
  cases found : table.get? id with
  | none =>
      simp only [Table.testElement, found]
      exact sound
  | some entry =>
      cases stored : entry.storage with
      | hash hash =>
          simp only [Table.testElement, found, stored]
          exact sound
      | list list =>
          simp only [Table.testElement, found, stored]
          exact sound
      | foreign storage =>
          simp only [Table.testElement, found, stored]
          exact sound.setForeign found stored _

/-- A test of a built-in storage changes nothing. -/
theorem Sound.testElement_eq (sound : table.Sound outside) (id : Nat) (data : List Datum) :
    (table.testElement id data).1 = table := by
  cases found : table.get? id with
  | none => simp only [Table.testElement, found]
  | some entry =>
      cases stored : entry.storage with
      | hash hash => simp only [Table.testElement, found, stored]
      | list list => simp only [Table.testElement, found, stored]
      | foreign storage => exact absurd stored (sound.not_foreign found)

theorem Sound.flushSlot (sound : table.Sound outside closed) (id : Nat) :
    (table.flushSlot id).Sound outside closed := by
  cases found : table.get? id with
  | none =>
      simp only [Table.flushSlot, found]
      exact sound
  | some entry =>
      cases stored : entry.storage with
      | hash hash =>
          simp only [Table.flushSlot, found, stored]
          exact sound.setHash found stored hash.clear
      | list list =>
          simp only [Table.flushSlot, found, stored]
          refine Sound.releaseAll (sound.setList found stored List.nodup_nil ?_ (by simp) ?_)
          · exact Nat.zero_le _
          · rw [List.append_nil]
            exact List.perm_append_comm
      | foreign storage =>
          simp only [Table.flushSlot, found, stored]
          exact sound.setForeign found stored _

theorem Sound.flush (sound : table.Sound outside closed) (name : String) :
    (table.flush name).1.Sound outside closed := by
  unfold Table.flush
  split
  · exact sound
  · exact sound.flushSlot _

theorem Sound.flushAll (sound : table.Sound outside closed) : table.flushAll.Sound outside closed :=
  foldl_preserves (fun table => table.Sound outside closed)
    (fun _ id before => before.flushSlot id) _ sound

end Storages

/-! ## Whole sets -/

theorem Sound.create [ForeignStorage σ] (sound : table.Sound outside closed) (creation : Creation)
    {type : SetType σ} {storage : Storage σ}
    (builtin : closed → (creation.newSet type storage).Builtin) (empty : storage.members = []) :
    (table.create creation type storage).1.Sound outside closed := by
  obtain ⟨_, _, -, refused⟩ | ⟨-, -, refused⟩ | ⟨id, -, free, created⟩ :=
    create_cases table creation type storage
  · rw [refused]
    exact sound
  · rw [refused]
    exact sound
  · rw [created]
    obtain ⟨vacant, inside, -⟩ := get_eq_none_of_free free
    exact sound.insert inside vacant builtin rfl empty

theorem Sound.destroy (sound : table.Sound outside closed) (name : String) :
    (table.destroy name).1.Sound outside closed := by
  obtain ⟨-, refused⟩ | ⟨_, _, -, -, refused⟩ | ⟨id, entry, found, unused, removed⟩ :=
    destroy_cases table name
  · rw [refused]
    exact sound
  · rw [refused]
    exact sound
  · rw [removed]
    exact (sound.remove (get_of_lookup found).2.1 unused).releaseAll

theorem Sound.destroyAll (sound : table.Sound outside closed) :
    table.destroyAll.1.Sound outside closed := by
  obtain ⟨-, refused⟩ | ⟨unused, removed⟩ := destroyAll_cases table
  · rw [refused]
    exact sound
  · rw [removed]
    have none : outside = [] := List.eq_nil_iff_forall_not_mem.mpr fun id held => by
      obtain ⟨entry, found, used⟩ := sound.references_ne_zero held
      exact used (unused id entry found)
    rw [none]
    exact .empty table.capacity

theorem Sound.renameSet (sound : table.Sound outside closed) (name : String) (newName : SetName) :
    (table.rename name newName).1.Sound outside closed := by
  obtain ⟨-, refused⟩ | ⟨_, _, -, -, refused⟩ | ⟨_, _, -, -, -, refused⟩ |
      ⟨id, entry, found, -, -, renamed⟩ := rename_cases table name newName
  · rw [refused]
    exact sound
  · rw [refused]
    exact sound
  · rw [refused]
    exact sound
  · rw [renamed]
    exact sound.rename (get_of_lookup found).2.1 newName

theorem Sound.swap (sound : table.Sound outside closed) (name second : String) :
    (table.swap name second).1.Sound outside closed := by
  obtain ⟨_, refused, -⟩ | ⟨id, entry, secondId, other, found, secondFound, compatible, swapped⟩ :=
    swap_cases table name second
  · rw [refused]
    exact sound
  · rw [swapped]
    split
    · exact sound
    · rename_i different
      exact sound.exchange (get_of_lookup found).2.1 (get_of_lookup secondFound).2.1 different
        compatible

/-! ## References from outside -/

theorem Sound.holdByName {name : String} (sound : table.Sound outside closed)
    (found : table.find? name = some id) (room : table.Room) :
    (table.hold id).Sound (id :: outside) closed := by
  obtain ⟨entry, occupied, -⟩ := get_of_find found
  exact sound.hold occupied (room id entry occupied)

/-! ## Packets -/

section Storages

variable [ForeignStorage σ] {query : Query} {depth : Nat}

theorem Sound.testPacketWithin {found : Bool} (sound : table.Sound outside closed)
    (ran : testPacketWithin query depth table id = some (after, found)) :
    after.Sound outside closed := by
  induction depth using Nat.strongRecOn generalizing table id after found with
  | _ depth ih =>
      obtain rfl | ⟨_, _, new, occupied, stored, rfl⟩ | ⟨_, list, fewer, _, _, rfl, passed⟩ :=
        testPacketWithin_cases ran
      · exact sound
      · exact sound.setForeign occupied stored new
      · exact anySlot_preserves (fun table => table.Sound outside closed)
          (fun middle member after found before asked =>
            ih fewer (Nat.lt_succ_self fewer) before asked) sound passed

theorem Sound.testPacket (sound : table.Sound outside closed) (id : Nat) (query : Query) :
    (table.testPacket id query).1.Sound outside closed :=
  testPacket_preserves (fun table => table.Sound outside closed) sound fun _ _ =>
    sound.testPacketWithin

theorem Sound.changePacketWithin {change : PacketChange} {result : Except Fault Unit}
    (sound : table.Sound outside closed)
    (ran : changePacketWithin change query depth table id = some (after, result)) :
    after.Sound outside closed := by
  induction depth using Nat.strongRecOn generalizing table id after result with
  | _ depth ih =>
      obtain rfl | ⟨_, _, new, occupied, stored, _, rfl⟩ | ⟨_, _, new, occupied, stored, rfl⟩ |
          ⟨_, list, fewer, _, _, rfl, passed⟩ := changePacketWithin_cases ran
      · exact sound
      · exact sound.setHash occupied stored new
      · exact sound.setForeign occupied stored _
      · exact firstSlot_preserves (fun table => table.Sound outside closed)
          (fun middle member after result before asked =>
            ih fewer (Nat.lt_succ_self fewer) before asked) sound passed

theorem Sound.changePacket (sound : table.Sound outside closed) (id : Nat) (change : PacketChange)
    (query : Query) : (table.changePacket id change query).1.Sound outside closed :=
  changePacket_preserves (fun table => table.Sound outside closed) sound fun _ _ =>
    sound.changePacketWithin

end Storages

end NamedSets.Table
