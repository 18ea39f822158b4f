import Mathlib.Data.List.Nodup
import NamedSets.Table.Packets

namespace NamedSets.AddressHash

variable {hash after : AddressHash} {kind : PacketChange} {address : Address} {first second : Nat}

structure Valid (hash : AddressHash) : Prop where
  ordered : hash.elements.Pairwise fun first second => first.1 < second.1
  below : ∀ element ∈ hash.elements, element.1 < hash.nextSequence
  distinct : (hash.elements.map (·.2)).Nodup
  bounded : hash.elements.length ≤ hash.maxElements.toNat

theorem Valid.sequence_unique (valid : hash.Valid) (here : (first, address) ∈ hash.elements)
    (there : (second, address) ∈ hash.elements) : first = second :=
  congrArg Prod.fst (List.inj_on_of_nodup_map valid.distinct here there rfl)

theorem create_valid {family : Family} {data : List Datum} (made : create family data = .ok hash) :
    hash.Valid := by
  unfold create at made
  split at made
  · contradiction
  · split at made
    · contradiction
    · dsimp only at made
      split at made
      · cases made
        exact ⟨.nil, by simp, List.nodup_nil, Nat.zero_le _⟩
      · contradiction

/-! ## Edits -/

/-- An address that a hash keeps an element under is one that stands for itself. -/
theorem element_element {element : Address} (kept : hash.element address = .ok element) :
    hash.element element = .ok element := by
  unfold AddressHash.element at kept ⊢
  cases family : hash.family <;> cases address <;> simp only [family] at kept <;> cases kept <;>
    simp only [Address.keepPrefix_keepPrefix]

theorem element_of_data {data : List Datum} {element : Address}
    (described : hash.elementOfData data = .ok element) : hash.element element = .ok element := by
  unfold elementOfData at described
  split at described
  · contradiction
  · contradiction
  · exact element_element described

inductive Edit (hash : AddressHash) : PacketChange → AddressHash → Prop
  | insert {element : Address} {grown : AddressHash}
      (accepted : hash.insert element = .ok grown)
      (itself : hash.element element = .ok element) : Edit hash .add grown
  | resize {again : Bool} {grown : AddressHash}
      (accepted : hash.resize again = .ok grown) : Edit hash .add grown
  | erase {element : Address} {left : AddressHash}
      (accepted : hash.erase element = .ok left) : Edit hash .delete left
  | clear : Edit hash .delete hash.clear

theorem insert_ok {element : Address} (accepted : hash.insert element = .ok after) :
    hash.contains element = false ∧ hash.elements.length < hash.maxElements.toNat ∧
      hash.elements.length < hash.hashSize ∧ after = { hash with
        elements := hash.elements ++ [(hash.nextSequence, element)]
        nextSequence := hash.nextSequence + 1 } := by
  unfold insert at accepted
  split at accepted
  · contradiction
  · rename_i fresh
    split at accepted
    · contradiction
    · split at accepted
      · contradiction
      · cases accepted
        exact ⟨by simpa using fresh, by omega, by omega, rfl⟩

theorem resize_ok {again : Bool} (accepted : hash.resize again = .ok after) :
    hash.hashSize * (if again then 4 else 2) ≤ greatestHashSize ∧
      after = { hash with hashSize := hash.hashSize * (if again then 4 else 2) } := by
  unfold resize at accepted
  extract_lets hashSize at accepted
  split at accepted
  · rename_i enough
    cases accepted
    exact ⟨enough, rfl⟩
  · contradiction

theorem erase_ok {element : Address} (accepted : hash.erase element = .ok after) :
    after = { hash with elements := hash.elements.filter (·.2 != element) } := by
  unfold erase at accepted
  split at accepted
  · cases accepted
    rfl
  · contradiction

theorem changePacket_edit {query : Query} (changed : hash.changePacket kind query = .ok after) :
    hash.Edit kind after := by
  unfold changePacket at changed
  split at changed
  · contradiction
  · rename_i element kept
    cases kind with
    | add => exact .insert changed (element_element kept)
    | delete => exact .erase changed

/-- A hash with some of the elements of a valid one is valid. -/
theorem Valid.sublist {elements : List (Nat × Address)} (valid : hash.Valid)
    (fewer : elements.Sublist hash.elements) : Valid { hash with elements } where
  ordered := valid.ordered.sublist fewer
  below element present := valid.below element (fewer.subset present)
  distinct := valid.distinct.sublist (fewer.map _)
  bounded := Nat.le_trans fewer.length_le valid.bounded

theorem Valid.edit (valid : hash.Valid) (edit : hash.Edit kind after) : after.Valid := by
  cases edit with
  | insert accepted =>
      obtain ⟨fresh, room, -, rfl⟩ := insert_ok accepted
      refine ⟨?_, ?_, ?_, ?_⟩
      · refine List.pairwise_append.mpr ⟨valid.ordered, List.pairwise_singleton _ _, ?_⟩
        intro earlier present last same
        rw [List.mem_singleton.mp same]
        exact valid.below earlier present
      · intro element present
        rcases List.mem_append.mp present with before | last
        · exact Nat.lt_succ_of_lt (valid.below element before)
        · rw [List.mem_singleton.mp last]
          exact Nat.lt_succ_self _
      · rw [List.map_append, List.map_singleton]
        refine valid.distinct.append (List.nodup_singleton _) fun stored before last => ?_
        obtain ⟨element, present, rfl⟩ := List.mem_map.mp before
        have found : hash.contains element.2 = true :=
          List.any_eq_true.mpr ⟨element, present, beq_self_eq_true _⟩
        rw [List.mem_singleton.mp last, fresh] at found
        contradiction
      · rw [List.length_append, List.length_singleton]
        exact room
  | resize accepted =>
      obtain ⟨-, rfl⟩ := resize_ok accepted
      exact ⟨valid.ordered, valid.below, valid.distinct, valid.bounded⟩
  | erase accepted =>
      rw [erase_ok accepted]
      exact valid.sublist List.filter_sublist
  | clear => exact valid.sublist (List.nil_sublist _)

/-- What an edit of a kind keeps: adding loses no element, deleting brings none. -/
def Keeps (hash : AddressHash) : PacketChange → AddressHash → Prop
  | .add, after => hash.elements ⊆ after.elements
  | .delete, after => after.elements ⊆ hash.elements

theorem Keeps.refl (hash : AddressHash) (kind : PacketChange) : hash.Keeps kind hash := by
  cases kind <;> exact List.Subset.refl _

theorem Keeps.trans {middle : AddressHash} (first : hash.Keeps kind middle)
    (second : middle.Keeps kind after) : hash.Keeps kind after := by
  cases kind with
  | add => exact List.Subset.trans first second
  | delete => exact List.Subset.trans second first

theorem Edit.keeps (edit : hash.Edit kind after) : hash.Keeps kind after := by
  cases edit with
  | insert accepted =>
      obtain ⟨-, -, -, rfl⟩ := insert_ok accepted
      exact List.subset_append_left _ _
  | resize accepted =>
      obtain ⟨-, rfl⟩ := resize_ok accepted
      exact List.Subset.refl _
  | erase accepted =>
      rw [erase_ok accepted]
      exact List.filter_sublist.subset
  | clear => exact List.nil_subset _

/-- An address that is stored before and after has the same sequence number. -/
theorem Keeps.sequence_eq (keeps : hash.Keeps kind after) (valid : hash.Valid)
    (later : after.Valid) (before : (first, address) ∈ hash.elements)
    (behind : (second, address) ∈ after.elements) : first = second := by
  cases kind with
  | add => exact later.sequence_unique (keeps before) behind
  | delete => exact valid.sequence_unique before (keeps behind)

end NamedSets.AddressHash
