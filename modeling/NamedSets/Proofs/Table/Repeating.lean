import NamedSets.Proofs.Table.Lives
import NamedSets.Proofs.Table.Refusals

namespace NamedSets

/-! ## Hashes -/

namespace AddressHash

variable {hash after : AddressHash} {kind : PacketChange} {data : List Datum} {element : Address}
  {fault : Fault}

/-- What data describe depends on the parameters of a hash alone. -/
theorem Edit.elementOfData_eq (edit : hash.Edit kind after) (data : List Datum) :
    after.elementOfData data = hash.elementOfData data := by
  cases edit with
  | insert accepted =>
      obtain ⟨-, -, -, rfl⟩ := insert_ok accepted
      rfl
  | resize accepted =>
      obtain ⟨-, rfl⟩ := resize_ok accepted
      rfl
  | erase accepted =>
      rw [erase_ok accepted]
      rfl
  | clear => rfl

theorem Keeps.contains (keeps : hash.Keeps .add after) (there : hash.contains element = true) :
    after.contains element = true := by
  obtain ⟨stored, present, same⟩ := List.any_eq_true.mp there
  exact List.any_eq_true.mpr ⟨stored, keeps present, same⟩

theorem contains_of_insert (accepted : hash.insert element = .ok after) :
    after.contains element = true := by
  obtain ⟨-, -, -, rfl⟩ := insert_ok accepted
  simp [AddressHash.contains]

/-- Only an element that is there already is refused as such. -/
theorem contains_of_refused (refused : hash.insert element = .error fault)
    (there : fault.errno = .element) : hash.contains element = true := by
  by_cases present : hash.contains element = true
  · exact present
  · rw [insert_fresh (by simpa using present)] at refused
    split at refused
    · cases refused
      cases there
    · split at refused <;> cases refused
      cases there

theorem resize_error {again : Bool} (refused : hash.resize again = .error fault) :
    fault = .hashFull := by
  unfold resize at refused
  extract_lets at refused
  split at refused <;> cases refused
  rfl

end AddressHash

/-! ## Lists of sets -/

namespace SetList

variable {σ : Type} {list : SetList} {table : Table σ} {data : List Datum} {place : Place}
  {member : Nat} {fault : Fault}

theorem assign_errno {named : Named} {datum : Datum}
    (refused : named.assign datum = .error fault) : fault.errno ∈ Errno.undescribed := by
  cases datum <;> cases refused
  decide

theorem Place.ofData_errno (refused : Place.ofData data = .error fault) :
    fault.errno ∈ Errno.undescribed := by
  unfold Place.ofData at refused
  split at refused
  · rename_i named
    cases refused
    obtain ⟨_, _, first⟩ := step_of_foldlM named
    exact assign_errno first
  · split at refused
    · cases refused
      decide
    · split at refused <;> cases refused
      decide

/-- Only a member that is listed already is refused as such. -/
theorem mem_of_refused (refused : list.insert table place member = .error fault)
    (there : fault.errno = .element) : member ∈ list.members := by
  unfold insert at refused
  cases found : table.get? member with
  | none =>
      simp only [found] at refused
      cases refused
      cases there
  | some entry =>
      simp only [found] at refused
      split at refused
      · cases refused
        cases there
      · split at refused
        · rename_i present
          exact List.isSome_idxOf?.mp present
        · -- The place is looked for, and the size looked at, only for a member that is new.
          cases placed : list.positionFor table place with
          | ok position =>
              simp only [placed] at refused
              split at refused <;> cases refused
              cases there
          | error reason =>
              simp only [placed] at refused
              cases refused
              unfold positionFor at placed
              split at placed
              · cases placed
              · split at placed
                · cases placed
                  cases there
                · split at placed <;> cases placed
                  cases there

theorem insert_listed {entry : Entry σ} (found : table.get? member = some entry)
    (plain : entry.type.features.listedLast = false) (listed : member ∈ list.members) :
    list.insert table place member = .error .alreadyMember := by
  have present : (list.position? member).isSome = true := List.isSome_idxOf?.mpr listed
  simp only [insert, found, plain, present, Bool.false_eq_true, if_false, if_true]

theorem mem_of_insert {grown : SetList} (accepted : list.insert table place member = .ok grown) :
    member ∈ grown.members := by
  obtain ⟨_, _, -, -, -, placed, -, rfl⟩ := insert_ok accepted
  exact (perm_insertAt (positionFor_le placed) member).mem_iff.mpr List.mem_cons_self

end SetList

namespace Table

variable {σ : Type} {table after : Table σ} {slot : Nat} {data : List Datum}

inductive Has (table : Table σ) (slot : Nat) (data : List Datum) : Prop
  | hash {hash : AddressHash} {element : Address}
      (stored : table.storage? slot = some (.hash hash))
      (described : hash.elementOfData data = .ok element)
      (contained : hash.contains element = true)
  | list {list : SetList} {place : SetList.Place} {member : Nat}
      (stored : table.storage? slot = some (.list list))
      (described : SetList.Place.ofData data = .ok place)
      (named : table.find? place.name.text = some member) (listed : member ∈ list.members)

/-- What a set has it keeps while elements are added. -/
theorem Has.of_grows (has : table.Has slot data) (edits : Edits .add table after)
    (grows : Grows table after) : after.Has slot data := by
  cases has with
  | @hash hash element stored described contained =>
      obtain ⟨new, there, sameElement, kept⟩ := edits.hash_preserves
        (fun old new (before : old.elementOfData data = .ok element ∧ old.contains element = true)
            edit =>
          ⟨(edit.elementOfData_eq data).trans before.1, edit.keeps.contains before.2⟩)
        stored ⟨described, contained⟩
      exact .hash there sameElement kept
  | @list list place member stored described named listed =>
      obtain ⟨entry, found, same⟩ := Option.map_eq_some_iff.mp stored
      obtain ⟨later, present, continues⟩ := Continues.edits edits entry found
      have members := grows.members slot
      have storage := continues.storage
      rw [members_of_get found, members_of_get present, same] at members
      rw [same] at storage
      cases content : later.storage with
      | list grown =>
          rw [content] at members
          have sameNames := (SameLabels.of_edits edits).find_eq place.name.text
          exact .list (storage_of_get present content) described (sameNames.trans named)
            (members listed)
      | hash other | foreign other =>
          rw [content] at storage
          cases storage

section Adds

variable [ForeignStorage σ] {retries : Nat}

theorem grows_addElementResizing (table : Table σ) (slot retries : Nat) (data : List Datum) :
    Grows table (table.addElementResizing slot retries data).1 :=
  settle_preserves (Grows table)
    (fun middle before => before.trans (grows_addElement middle slot data))
    (fun again middle before => before.trans (grows_resize middle slot again))
    retries false (.refl table)

theorem Has.addElementResizing (has : table.Has slot data) (retries : Nat) (others : List Datum) :
    (table.addElementResizing slot retries others).1.Has slot data :=
  has.of_grows (edits_addElementResizing table slot retries others)
    (grows_addElementResizing table slot retries others)

/-! ## Adding once -/

/-- The element is there after an operation: it fails at most by saying so. -/
def Assures (result : Except Fault Unit) : Prop :=
  ∀ fault, result = .error fault → fault.errno = .element

theorem not_assures {fault : Fault} (other : fault.errno ≠ .element) :
    ¬ Assures (.error fault) := fun assures => other (assures fault rfl)

theorem not_assures_undescribed {fault : Fault} (undescribed : fault.errno ∈ Errno.undescribed) :
    ¬ Assures (.error fault) := by
  refine not_assures fun there => ?_
  rw [there] at undescribed
  exact absurd undescribed (by decide)

theorem addElement_has_hash {hash : AddressHash} (stored : table.storage? slot = some (.hash hash))
    (assures : Assures (table.addElement slot data).2) :
    (table.addElement slot data).1.Has slot data := by
  cases described : hash.elementOfData data with
  | error fault =>
      obtain ⟨entry, found, content⟩ := Option.map_eq_some_iff.mp stored
      simp only [addElement, found, content, described, bind, Except.bind, storing] at assures
      exact absurd assures (not_assures_undescribed (AddressHash.elementOfData_errno described))
  | ok element =>
      rw [addElement_of_hash stored described] at assures ⊢
      cases inserted : hash.insert element with
      | ok grown =>
          have edit : hash.Edit .add grown :=
            .insert inserted (AddressHash.element_of_data described)
          have same := (edit.elementOfData_eq data).trans described
          refine .hash ?_ same (AddressHash.contains_of_insert inserted)
          exact (storage_setStorage stored _ slot).trans (if_pos rfl)
      | error fault =>
          rw [inserted] at assures
          exact .hash stored described
            (AddressHash.contains_of_refused inserted (assures fault rfl))

theorem addElement_has_list {list : SetList} (stored : table.storage? slot = some (.list list))
    (assures : Assures (table.addElement slot data).2) :
    (table.addElement slot data).1.Has slot data := by
  rw [addElement_of_list stored] at assures ⊢
  cases described : SetList.Place.ofData data with
  | error fault =>
      simp only [SetList.add, described, storing] at assures
      exact absurd assures (not_assures_undescribed (SetList.Place.ofData_errno described))
  | ok place =>
      cases named : table.find? place.name.text with
      | none =>
          simp only [SetList.add, described, named, storing] at assures
          exact absurd assures (not_assures (by decide))
      | some member =>
          have held := SameLabels.hold table member
          cases inserted : list.insert (table.hold member) place member with
          | ok grown =>
              simp only [SetList.add, described, named, inserted, storing]
              have there := (table.storage_hold member slot).trans stored
              have labels := held.trans (.setStorage _ slot (.list grown))
              refine .list ?_ described ((labels.find_eq _).trans named)
                (SetList.mem_of_insert inserted)
              rw [storage_setStorage there, if_pos rfl]
          | error fault =>
              simp only [SetList.add, described, named, inserted, storing] at assures ⊢
              have labels := held.trans (.release _ member)
              refine .list ?_ described ((labels.find_eq _).trans named)
                (SetList.mem_of_refused inserted (assures fault rfl))
              rw [storage_release, storage_hold, stored]

theorem addElement_has (noForeign : table.NoForeign)
    (assures : Assures (table.addElement slot data).2) :
    (table.addElement slot data).1.Has slot data := by
  cases found : table.get? slot with
  | none =>
      simp only [addElement, found] at assures
      exact absurd assures (not_assures (by decide))
  | some entry =>
      cases content : entry.storage with
      | hash hash => exact addElement_has_hash (storage_of_get found content) assures
      | list list => exact addElement_has_list (storage_of_get found content) assures
      | foreign storage => exact absurd content (noForeign slot entry found storage)

/-- A growth that fails does not say that an element is there. -/
theorem resize_not_assures (noForeign : table.NoForeign) {again : Bool} {fault : Fault}
    (refused : (table.resize slot again).2 = .error fault) :
    ¬ Assures (table.resize slot again).2 := by
  rw [refused]
  refine not_assures ?_
  cases found : table.get? slot with
  | none =>
      simp only [resize, found] at refused
      cases refused
      decide
  | some entry =>
      simp only [resize, found] at refused
      cases content : entry.storage with
      | hash hash =>
          simp only [content, Storage.resize] at refused
          cases grown : hash.resize again with
          | ok larger => simp [grown] at refused
          | error reason =>
              simp only [grown] at refused
              cases refused
              rw [AddressHash.resize_error grown]
              decide
      | list list =>
          simp only [content, Storage.resize] at refused
          cases refused
          decide
      | foreign storage => exact absurd content (noForeign slot entry found storage)

/-- An element that was added, or was there already, is there afterwards. -/
theorem addElementResizing_has (noForeign : table.NoForeign)
    (assures : Assures (table.addElementResizing slot retries data).2) :
    (table.addElementResizing slot retries data).1.Has slot data := by
  refine settle_ends NoForeign (fun outcome => Assures outcome.2 → outcome.1.Has slot data)
    ?_ ?_ ?_ retries false noForeign assures
  · exact fun middle before =>
      ⟨before.edits (edits_addElement middle slot data), addElement_has before⟩
  · exact fun again middle before => before.edits (edits_resize middle slot again)
  · exact fun again middle fault before refused said =>
      absurd said (resize_not_assures before refused)

/-! ## Adding again -/

variable {outside : List Nat}

theorem Has.addElement_refused (has : table.Has slot data) (sound : table.Sound outside)
    (room : table.Room) :
    ∃ fault, table.addElement slot data = (table, .error fault) ∧ fault.errno = .element := by
  have said : ∃ fault, (table.addElement slot data).2 = .error fault ∧ fault.errno = .element := by
    cases has with
    | @hash hash element stored described contained =>
        have refused : hash.insert element = .error .elementExists := if_pos contained
        exact ⟨.elementExists, by rw [addElement_of_hash stored described, refused]; rfl, rfl⟩
    | @list list place member stored described named listed =>
        obtain ⟨entry, found, same⟩ := Option.map_eq_some_iff.mp stored
        have plain := sound.plain_of_get found
        rw [same] at plain
        obtain ⟨set, there, ordinary⟩ := plain member listed
        have refused : list.insert (table.hold member) place member = .error .alreadyMember :=
          SetList.insert_listed (get_hold there) ordinary listed
        refine ⟨.alreadyMember, ?_, rfl⟩
        simp only [addElement_of_list stored, SetList.add, described, named, refused, storing]
  obtain ⟨fault, refused, there⟩ := said
  exact ⟨fault, Prod.ext (Table.addElement_refused sound room refused) refused, there⟩

/-- An element that is there is not added again, and nothing else is changed. -/
theorem Has.addElementResizing_refused (has : table.Has slot data) (sound : table.Sound outside)
    (room : table.Room) (retries : Nat) :
    ∃ fault, table.addElementResizing slot retries data = (table, .error fault) ∧
      fault.errno = .element := by
  obtain ⟨fault, refused, there⟩ := has.addElement_refused sound room
  refine ⟨fault, settle_failed false refused fun full => ?_, there⟩
  rw [there] at full
  cases full

end Adds

end Table

end NamedSets
