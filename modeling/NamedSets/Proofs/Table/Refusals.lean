import NamedSets.Proofs.Table.Balance
import NamedSets.Proofs.Table.Settling

namespace NamedSets

/-! ## Data that describe no element -/

def Errno.undescribed : List Errno :=
  [.protocol, .timeout, .ipv4Address, .ipv6Address, .typeSpecific]

/-- The fault of a fold is one of its steps. -/
theorem step_of_foldlM {State α : Type} {step : State → α → Except Fault State} {state : State}
    {list : List α} {fault : Fault} (refused : list.foldlM step state = .error fault) :
    ∃ middle element, step middle element = .error fault := by
  induction list generalizing state with
  | nil => cases refused
  | cons element rest ih =>
      rw [List.foldlM_cons] at refused
      cases first : step state element with
      | ok next => exact ih (by simpa [first, bind, Except.bind] using refused)
      | error other =>
          simp only [first, bind, Except.bind, Except.error.injEq] at refused
          exact ⟨state, element, refused ▸ first⟩

namespace AddressHash

variable {hash grown : AddressHash} {family : Family} {data : List Datum} {element : Address}
  {fault : Fault}

theorem nameAddress_errno {named : Option Address} {datum : Datum}
    (refused : hash.nameAddress named datum = .error fault) :
    fault.errno ∈ Errno.undescribed := by
  cases datum with
  | cidr length =>
      simp only [nameAddress] at refused
      split at refused <;> cases refused
      decide
  | _ => cases refused <;> decide

theorem element_errno {address : Address} (refused : hash.element address = .error fault) :
    fault.errno ∈ Errno.undescribed := by
  unfold AddressHash.element at refused
  split at refused <;> cases refused <;> decide

theorem elementOfData_errno (refused : hash.elementOfData data = .error fault) :
    fault.errno ∈ Errno.undescribed := by
  unfold elementOfData at refused
  split at refused
  · rename_i named
    cases refused
    obtain ⟨_, _, first⟩ := step_of_foldlM named
    exact nameAddress_errno first
  · cases refused
    decide
  · exact element_errno refused

/-! ## Hashes that have grown -/

/-- An insertion that asks for more room succeeds as soon as there is more. -/
theorem insert_resize (regular : hash.Regular family) (refused : hash.insert element = .error fault)
    (full : fault.errno = .again) {again : Bool} (larger : hash.resize again = .ok grown) :
    ∃ after, grown.insert element = .ok after := by
  obtain ⟨-, rfl⟩ := resize_ok larger
  unfold insert at refused
  split at refused
  · cases refused
    contradiction
  · rename_i fresh
    split at refused
    · cases refused
      contradiction
    · rename_i fewer
      have positive : 0 < hash.hashSize := Nat.lt_of_lt_of_le (by decide) regular.large
      have room : hash.elements.length < hash.hashSize * (if again then 4 else 2) := by
        have bound := regular.room
        split <;> omega
      exact ⟨_, (if_neg fresh).trans ((if_neg fewer).trans (if_neg (Nat.not_le.mpr room)))⟩

/-- An element that asks for more room is added as soon as there is more. -/
theorem add_resize (regular : hash.Regular family)
    (refused : hash.elementOfData data >>= hash.insert = .error fault)
    (full : fault.errno = .again) {again : Bool} (larger : hash.resize again = .ok grown) :
    ∃ after, grown.elementOfData data >>= grown.insert = .ok after := by
  cases described : hash.elementOfData data with
  | error reason =>
      simp only [described, bind, Except.bind, Except.error.injEq] at refused
      have undescribed := elementOfData_errno described
      rw [refused, full] at undescribed
      exact absurd undescribed (by decide)
  | ok element =>
      simp only [described, bind, Except.bind] at refused
      obtain ⟨after, accepted⟩ := insert_resize regular refused full larger
      -- What data describe does not depend on the size.
      have same : grown.elementOfData data = .ok element := by
        obtain ⟨-, rfl⟩ := resize_ok larger
        exact described
      exact ⟨after, by simp only [same, bind, Except.bind, accepted]⟩

end AddressHash

namespace Table

variable {σ : Type} {table : Table σ} {outside : List Nat} {id : Nat} {data : List Datum}
  {fault : Fault} {name : String}

/-! ## Whole sets -/

theorem create_refused [ForeignStorage σ] {creation : Creation} {type : SetType σ}
    {storage : Storage σ} (refused : (table.create creation type storage).2 = .error fault) :
    (table.create creation type storage).1 = table := by
  obtain ⟨_, _, -, same⟩ | ⟨-, -, same⟩ | ⟨_, -, -, created⟩ :=
    create_cases table creation type storage
  · rw [same]
  · rw [same]
  · rw [created] at refused
    cases refused

theorem destroy_refused (refused : (table.destroy name).2 = .error fault) :
    (table.destroy name).1 = table := by
  obtain ⟨-, same⟩ | ⟨_, _, -, -, same⟩ | ⟨_, _, -, -, removed⟩ := destroy_cases table name
  · rw [same]
  · rw [same]
  · rw [removed] at refused
    cases refused

theorem destroyAll_refused (refused : table.destroyAll.2 = .error fault) :
    table.destroyAll.1 = table := by
  obtain ⟨-, same⟩ | ⟨-, removed⟩ := destroyAll_cases table
  · rw [same]
  · rw [removed] at refused
    cases refused

theorem flush_refused [ForeignStorage σ] (refused : (table.flush name).2 = .error fault) :
    (table.flush name).1 = table := by
  unfold flush at refused ⊢
  cases found : table.find? name with
  | none => rfl
  | some slot => simp [found] at refused

theorem rename_refused {newName : SetName}
    (refused : (table.rename name newName).2 = .error fault) :
    (table.rename name newName).1 = table := by
  obtain ⟨-, same⟩ | ⟨_, _, -, -, same⟩ | ⟨_, _, -, -, -, same⟩ | ⟨_, _, -, -, -, renamed⟩ :=
    rename_cases table name newName
  · rw [same]
  · rw [same]
  · rw [same]
  · rw [renamed] at refused
    cases refused

theorem swap_refused {second : String} (refused : (table.swap name second).2 = .error fault) :
    (table.swap name second).1 = table := by
  obtain ⟨_, same, -⟩ | ⟨_, _, _, _, -, -, -, swapped⟩ := swap_cases table name second
  · rw [same]
  · rw [swapped] at refused
    cases refused

/-! ## Elements -/

theorem storing_refused {α : Type} {result : Except Fault α} {storage : α → Storage σ}
    (refused : (table.storing id result storage).2 = .error fault) :
    (table.storing id result storage).1 = table := by
  cases result with
  | ok value => cases refused
  | error other => rfl

theorem error_of_storing {α : Type} {result : Except Fault α} {storage : α → Storage σ}
    (refused : (table.storing id result storage).2 = .error fault) : result = .error fault := by
  cases result with
  | ok value => cases refused
  | error other => exact congrArg Except.error (Except.error.inj refused)

section Settling

variable {State : Type} {add : State → State × Except Fault Unit}
  {resize : Bool → State → State × Except Fault Unit} {state : State} {retries : Nat}

/-- If a refused add and a refused growth leave a state as it is, and an add that asked for the
growth succeeds behind it, then adding with resizes leaves the state as it is unless it succeeds. -/
theorem settle_refused (adds : ∀ fault, (add state).2 = .error fault → (add state).1 = state)
    (resizes : ∀ fault, (resize false state).2 = .error fault → (resize false state).1 = state)
    (enough : ∀ fault grown, (add state).2 = .error fault → fault.errno = .again →
      resize false state = (grown, .ok ()) → (add grown).2 = .ok ())
    (refused : (settle add resize retries false state).2 = .error fault) :
    (settle add resize retries false state).1 = state := by
  have ran := settles add resize retries false state
  generalize settle add resize retries false state = outcome at ran refused ⊢
  cases ran with
  | last tried =>
      have unchanged := adds fault
      rw [tried] at unchanged
      exact unchanged refused
  | stuck tried _ second =>
      have unchanged := adds _ (congrArg Prod.snd tried)
      rw [tried] at unchanged
      subst unchanged
      have same := resizes _ (congrArg Prod.snd second)
      rwa [second] at same
  | grown tried full growth others =>
      have unchanged := adds _ (congrArg Prod.snd tried)
      rw [tried] at unchanged
      subst unchanged
      have done := others.done (enough _ _ (congrArg Prod.snd tried) full growth)
      rw [refused] at done
      cases done

end Settling

section Elements

variable [ForeignStorage σ]

theorem addElement_refused (sound : table.Sound outside) (room : table.Room)
    (refused : (table.addElement id data).2 = .error fault) :
    (table.addElement id data).1 = table := by
  cases found : table.get? id with
  | none => simp only [addElement, found]
  | some entry =>
      cases stored : entry.storage with
      | hash hash =>
          simp only [addElement, found, stored] at refused ⊢
          exact storing_refused refused
      | list list =>
          simp only [addElement, found, stored] at refused ⊢
          obtain ⟨fault, same⟩ | ⟨place, member, -, named, outcome⟩ := list.add_cases table data
          · rw [same]
            rfl
          · obtain ⟨memberEntry, occupied, -⟩ := get_of_find named
            obtain ⟨fault, -, same⟩ | ⟨grown, -, added⟩ := outcome
            · rw [same]
              exact release_hold occupied (room member memberEntry occupied)
            · rw [added] at refused
              cases refused
      | foreign storage => exact absurd stored (sound.not_foreign found)

theorem deleteElement_refused (sound : table.Sound outside)
    (refused : (table.deleteElement id data).2 = .error fault) :
    (table.deleteElement id data).1 = table := by
  cases found : table.get? id with
  | none => simp only [deleteElement, found]
  | some entry =>
      cases stored : entry.storage with
      | hash hash =>
          simp only [deleteElement, found, stored] at refused ⊢
          exact storing_refused refused
      | list list =>
          simp only [deleteElement, found, stored] at refused ⊢
          obtain ⟨fault, same⟩ | ⟨_, _, _, -, -, -, deleted⟩ := list.delete_cases table data
          · rw [same]
            rfl
          · rw [deleted] at refused
            cases refused
      | foreign storage => exact absurd stored (sound.not_foreign found)

theorem resize_refused (sound : table.Sound outside) {again : Bool}
    (refused : (table.resize id again).2 = .error fault) : (table.resize id again).1 = table := by
  cases found : table.get? id with
  | none => simp only [resize, found]
  | some entry =>
      simp only [resize, found] at refused ⊢
      cases stored : entry.storage with
      | hash hash =>
          cases grown : hash.resize again with
          | ok larger => simp [stored, Storage.resize, grown] at refused
          | error reason =>
              simp only [Storage.resize, grown]
              exact setStorage_self (storage_of_get found stored)
      | list list => exact setStorage_self (storage_of_get found stored)
      | foreign storage => exact absurd stored (sound.not_foreign found)

/-- Only a hash grows. -/
theorem resize_done (sound : table.Sound outside) {again : Bool} {grown : Table σ}
    (larger : table.resize id again = (grown, .ok ())) :
    ∃ entry hash bigger, table.get? id = some entry ∧ entry.storage = .hash hash ∧
      hash.resize again = .ok bigger ∧
      grown.get? id = some { entry with storage := .hash bigger } := by
  cases found : table.get? id with
  | none => simp [resize, found] at larger
  | some entry =>
      cases stored : entry.storage with
      | hash hash =>
          simp only [resize, found, stored, Storage.resize] at larger
          cases more : hash.resize again with
          | error refusal => simp [more] at larger
          | ok bigger =>
              simp only [more, Prod.mk.injEq, and_true] at larger
              subst larger
              refine ⟨entry, hash, bigger, rfl, stored, more, ?_⟩
              rw [setStorage, get_modify, if_pos rfl, found, Option.map_some]
      | list list => simp [resize, found, stored, Storage.resize] at larger
      | foreign storage => exact absurd stored (sound.not_foreign found)

/-- An add that asks for more room succeeds once the set has grown. -/
theorem addElement_resize (sound : table.Sound outside)
    (regular : table.Throughout fun family storage => storage.Regular family)
    (refused : (table.addElement id data).2 = .error fault)
    (full : fault.errno = .again) {again : Bool} {grown : Table σ}
    (larger : table.resize id again = (grown, .ok ())) :
    (grown.addElement id data).2 = .ok () := by
  obtain ⟨entry, hash, bigger, found, stored, more, there⟩ := resize_done sound larger
  have stays := regular id entry found
  rw [stored] at stays
  simp only [addElement, found, stored] at refused
  obtain ⟨after, accepted⟩ := hash.add_resize stays (error_of_storing refused) full more
  simp only [addElement, there, accepted, storing]

theorem addElementResizing_refused (sound : table.Sound outside) (room : table.Room)
    (regular : table.Throughout fun family storage => storage.Regular family) {retries : Nat}
    (refused : (table.addElementResizing id retries data).2 = .error fault) :
    (table.addElementResizing id retries data).1 = table := by
  refine settle_refused ?_ ?_ ?_ refused
  · exact fun _ => addElement_refused sound room
  · exact fun _ => resize_refused sound
  · exact fun _ _ first full larger => addElement_resize sound regular first full larger

end Elements

end Table

end NamedSets
