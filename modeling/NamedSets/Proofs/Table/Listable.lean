import NamedSets.Proofs.Table.Accounts
import NamedSets.Proofs.Table.Courses
import NamedSets.Proofs.Table.Elements
import NamedSets.Proofs.Table.Names

namespace NamedSets.Table

variable {σ : Type} {table after : Table σ} {entry : Entry σ} {id : Nat}

def AllListable (table : Table σ) : Prop :=
  ∀ id entry, table.get? id = some entry → entry.Builtin ∧ table.Listable entry.storage

theorem SameLabels.name (same : SameLabels table after) (slot : Nat) :
    after.name? slot = table.name? slot := by
  have label := congrArg (Option.map Prod.fst) (same.labels slot)
  rwa [Option.map_map, Option.map_map] at label

/-! ## Hashes -/

theorem listable_hash {hash : AddressHash} (valid : hash.Valid) :
    table.Listable (.hash hash) where
  builtin := by simp
  present := by simp [Storage.members]
  ordered := List.pairwise_map.mpr valid.ordered
  distinct := by
    have same : (table.elements (.hash hash)).map (·.2) =
        (hash.elements.map (·.2)).map fun address => [Datum.ip address] := by
      simp [elements]
    rw [same]
    exact valid.distinct.map fun first second equal => by simpa using equal
  few := by
    rw [elements, List.length_map]
    exact Nat.lt_of_le_of_lt valid.bounded hash.maxElements.toNat_lt

/-! ## Lists -/

/-- The elements of a list stand in the positions of its members. -/
theorem mem_members_elements {members : List Nat} {offset : Nat} {element : Nat × List Datum}
    (present : element ∈ (members.zipIdx offset).filterMap table.memberElement) :
    offset ≤ element.1 ∧ ∃ member ∈ members, ∃ name, table.name? member = some name ∧
      element.2 = [.name name] := by
  obtain ⟨placed, among, made⟩ := List.mem_filterMap.mp present
  obtain ⟨name, named, rfl⟩ := Option.map_eq_some_iff.mp made
  obtain ⟨behind, -, there⟩ := List.mem_zipIdx among
  exact ⟨behind, placed.1, there ▸ List.getElem_mem _, name, named, rfl⟩

theorem members_ordered (members : List Nat) (offset : Nat) :
    ((members.zipIdx offset).filterMap table.memberElement).Pairwise
      fun first second => first.1 < second.1 := by
  induction members generalizing offset with
  | nil => exact .nil
  | cons member rest ih =>
      rw [List.zipIdx_cons, List.filterMap_cons]
      split
      · exact ih (offset + 1)
      · rename_i made
        obtain ⟨name, -, rfl⟩ := Option.map_eq_some_iff.mp made
        refine List.pairwise_cons.mpr ⟨fun later present => ?_, ih (offset + 1)⟩
        exact (mem_members_elements present).1

private theorem members_distinct (names : table.NamesDistinct) {members : List Nat}
    (once : members.Nodup) (offset : Nat) :
    (((members.zipIdx offset).filterMap table.memberElement).map (·.2)).Nodup := by
  induction members generalizing offset with
  | nil => exact List.nodup_nil
  | cons member rest ih =>
      obtain ⟨fresh, once⟩ := List.nodup_cons.mp once
      rw [List.zipIdx_cons, List.filterMap_cons]
      split
      · exact ih once (offset + 1)
      · rename_i made
        obtain ⟨name, named, rfl⟩ := Option.map_eq_some_iff.mp made
        refine List.nodup_cons.mpr ⟨fun again => ?_, ih once (offset + 1)⟩
        obtain ⟨element, present, same⟩ := List.mem_map.mp again
        obtain ⟨-, other, among, otherName, otherNamed, stored⟩ := mem_members_elements present
        obtain ⟨entry, found, rfl⟩ := Option.map_eq_some_iff.mp named
        obtain ⟨set, there, rfl⟩ := Option.map_eq_some_iff.mp otherNamed
        have equal : set.name = entry.name := by simpa [stored] using same
        have slot := names member other entry set found there (congrArg SetName.text equal).symm
        exact fresh (slot ▸ among)

theorem listable_list {list : SetList} (names : table.NamesDistinct) (once : list.members.Nodup)
    (present : ∀ member ∈ list.members, table.Plain member)
    (bounded : list.members.length ≤ list.size.toNat) : table.Listable (.list list) where
  builtin := by simp
  present member among := by
    obtain ⟨entry, found, -⟩ := present member among
    simp [name?, found]
  ordered := members_ordered list.members 0
  distinct := members_distinct names once 0
  few := by
    have fewer := List.length_filterMap_le table.memberElement list.members.zipIdx
    rw [List.length_zipIdx] at fewer
    exact Nat.lt_of_le_of_lt (Nat.le_trans fewer bounded) list.size.toNat_lt

theorem Sound.allListable {outside : List Nat} (sound : table.Sound outside)
    (hashes : table.HashesValid) (names : table.NamesDistinct) : table.AllListable := by
  intro id entry found
  have valid := sound.valid found
  have plain := sound.plain_of_get found
  refine ⟨valid.builtin trivial, ?_⟩
  cases stored : entry.storage with
  | hash hash => exact listable_hash (hashes id hash (storage_of_get found stored))
  | list list =>
      have once := valid.distinct
      rw [stored] at once plain
      exact listable_list names once plain (valid.bounded list stored)
  | foreign inner => exact absurd stored (sound.not_foreign found)

end NamedSets.Table
