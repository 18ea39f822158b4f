import Mathlib.Logic.Relation
import NamedSets.Proofs.Storage.AddressHash
import NamedSets.Proofs.Table.Members
import NamedSets.Proofs.Table.Packets

/-!
# Edits

Whatever an operation does to elements, packets and references, it does by small changes of a
few forms. An edit takes or gives back a reference, or replaces a storage by one of its kind,
a hash by an edit of the hash. No operation both adds to hashes and deletes from them.
-/

namespace NamedSets.Table

open Relation (ReflTransGen)

variable {σ : Type} {table after : Table σ} {kind : PacketChange} {id : Nat} {entry : Entry σ}

inductive Edit (kind : PacketChange) (table : Table σ) : Table σ → Prop
  | hold (id : Nat) : Edit kind table (table.hold id)
  | release (id : Nat) : Edit kind table (table.release id)
  | hash {id : Nat} {old new : AddressHash} (stored : table.storage? id = some (.hash old))
      (edit : old.Edit kind new) : Edit kind table (table.setStorage id (.hash new))
  | list {id : Nat} {old : SetList} (stored : table.storage? id = some (.list old))
      (new : SetList) (size : new.size = old.size) :
      Edit kind table (table.setStorage id (.list new))
  | foreign {id : Nat} {old : σ} (stored : table.storage? id = some (.foreign old)) (new : σ) :
      Edit kind table (table.setStorage id (.foreign new))

def Edits (kind : PacketChange) : Table σ → Table σ → Prop := ReflTransGen (Edit kind)

namespace Edits

theorem refl (table : Table σ) : Edits kind table table := ReflTransGen.refl

theorem trans {middle : Table σ} (first : Edits kind table middle)
    (second : Edits kind middle after) : Edits kind table after := ReflTransGen.trans first second

theorem single (edit : Edit kind table after) : Edits kind table after := ReflTransGen.single edit

theorem hold (table : Table σ) (id : Nat) : Edits kind table (table.hold id) := single (.hold id)

theorem release (table : Table σ) (id : Nat) : Edits kind table (table.release id) :=
  single (.release id)

theorem releaseAll (table : Table σ) (ids : List Nat) : Edits kind table (table.releaseAll ids) :=
  foldl_preserves (Edits kind table) (fun middle id before => before.trans (release middle id))
    ids (refl table)

/-- What every edit keeps, any number of them does. -/
theorem induction (kept : Table σ → Prop) (edits : Edits kind table after) (before : kept table)
    (step : ∀ middle later, kept middle → Edit kind middle later → kept later) : kept after := by
  induction edits with
  | refl => exact before
  | tail _ last ih => exact step _ _ ih last

end Edits

/-! ## References from outside -/

theorem edits_holdByName (table : Table σ) (name : String) :
    Edits kind table (table.holdByName name).1 := by
  unfold holdByName
  split
  · exact .hold table _
  · exact .refl table

theorem edits_holdById (table : Table σ) (id : Nat) : Edits kind table (table.holdById id).1 := by
  unfold holdById
  split
  · exact .hold table id
  · exact .refl table

/-! ## Elements -/

/-- A storage that is not replaced after a fault, and otherwise by an edit. -/
theorem edits_storing {α : Type} {result : Except Fault α} {storage : α → Storage σ}
    (edit : ∀ value, result = .ok value → Edit kind table (table.setStorage id (storage value))) :
    Edits kind table (table.storing id result storage).1 := by
  cases outcome : result with
  | ok value => exact .single (edit value outcome)
  | error fault => exact .refl table

theorem edits_add {list : SetList} (stored : table.storage? id = some (.list list))
    (data : List Datum) :
    Edits kind table ((list.add table data).1.storing id (list.add table data).2 .list).1 := by
  obtain ⟨fault, refused⟩ |
      ⟨place, member, -, -, ⟨fault, -, refused⟩ | ⟨grown, accepted, added⟩⟩ :=
    list.add_cases table data
  · rw [refused]
    exact .refl table
  · rw [refused]
    exact (Edits.hold table member).trans (.release _ member)
  · rw [added]
    have kept := (table.storage_hold member id).trans stored
    obtain ⟨_, _, -, -, -, -, -, rfl⟩ := SetList.insert_ok accepted
    exact (Edits.hold table member).trans (.single (.list kept _ rfl))

theorem edits_delete {list : SetList} (stored : table.storage? id = some (.list list))
    (data : List Datum) :
    Edits kind table
      ((list.delete table data).1.storing id (list.delete table data).2 .list).1 := by
  obtain ⟨fault, refused⟩ | ⟨place, member, position, -, -, -, deleted⟩ :=
    list.delete_cases table data
  · rw [refused]
    exact .refl table
  · rw [deleted]
    have kept := (table.storage_release member id).trans stored
    exact (Edits.release table member).trans (.single (.list kept _ rfl))

section Storages

variable [ForeignStorage σ]

/-- What a hash makes of the element that data describe. -/
theorem exists_of_element {hash new : AddressHash} {data : List Datum}
    {change : AddressHash → Address → Except Fault AddressHash}
    (made : (do change hash (← hash.elementOfData data)) = .ok new) :
    ∃ element, change hash element = .ok new ∧ hash.element element = .ok element := by
  cases described : hash.elementOfData data with
  | error fault => simp [described, bind, Except.bind] at made
  | ok element =>
      exact ⟨element, by simpa [described, bind, Except.bind] using made,
        AddressHash.element_of_data described⟩

theorem addElement_of_hash {hash : AddressHash} {data : List Datum} {element : Address}
    (stored : table.storage? id = some (.hash hash))
    (described : hash.elementOfData data = .ok element) :
    table.addElement id data = table.storing id (hash.insert element) .hash := by
  obtain ⟨entry, found, same⟩ := Option.map_eq_some_iff.mp stored
  simp only [addElement, found, same, described, bind, Except.bind]

theorem resize_of_hash {hash : AddressHash} (stored : table.storage? id = some (.hash hash))
    (again : Bool) : table.resize id again = table.storing id (hash.resize again) .hash := by
  obtain ⟨entry, found, same⟩ := Option.map_eq_some_iff.mp stored
  simp only [resize, found, same, Storage.resize]
  cases hash.resize again with
  | ok larger => rfl
  | error fault => exact congrArg (·, _) (setStorage_self stored)

theorem addElement_of_list {list : SetList} (stored : table.storage? id = some (.list list))
    (data : List Datum) : table.addElement id data =
      (list.add table data).1.storing id (list.add table data).2 .list := by
  obtain ⟨entry, found, same⟩ := Option.map_eq_some_iff.mp stored
  simp only [addElement, found, same]

theorem deleteElement_of_list {list : SetList} (stored : table.storage? id = some (.list list))
    (data : List Datum) : table.deleteElement id data =
      (list.delete table data).1.storing id (list.delete table data).2 .list := by
  obtain ⟨entry, found, same⟩ := Option.map_eq_some_iff.mp stored
  simp only [deleteElement, found, same]

theorem testElement_of_list {list : SetList} (stored : table.storage? id = some (.list list))
    (data : List Datum) : table.testElement id data = (table, list.test table data) := by
  obtain ⟨entry, found, same⟩ := Option.map_eq_some_iff.mp stored
  simp only [testElement, found, same]

theorem edits_addElement (table : Table σ) (id : Nat) (data : List Datum) :
    Edits .add table (table.addElement id data).1 := by
  cases found : table.get? id with
  | none =>
      simp only [addElement, found]
      exact .refl table
  | some entry =>
      cases stored : entry.storage with
      | hash hash =>
          simp only [addElement, found, stored]
          refine edits_storing fun grown made => ?_
          obtain ⟨element, accepted, itself⟩ := exists_of_element made
          exact .hash (storage_of_get found stored) (.insert accepted itself)
      | list list =>
          simp only [addElement, found, stored]
          exact edits_add (storage_of_get found stored) data
      | foreign storage =>
          simp only [addElement, found, stored]
          exact .single (.foreign (storage_of_get found stored) _)

theorem edits_deleteElement (table : Table σ) (id : Nat) (data : List Datum) :
    Edits .delete table (table.deleteElement id data).1 := by
  cases found : table.get? id with
  | none =>
      simp only [deleteElement, found]
      exact .refl table
  | some entry =>
      cases stored : entry.storage with
      | hash hash =>
          simp only [deleteElement, found, stored]
          refine edits_storing fun left made => ?_
          obtain ⟨element, accepted, -⟩ := exists_of_element made
          exact .hash (storage_of_get found stored) (.erase accepted)
      | list list =>
          simp only [deleteElement, found, stored]
          exact edits_delete (storage_of_get found stored) data
      | foreign storage =>
          simp only [deleteElement, found, stored]
          exact .single (.foreign (storage_of_get found stored) _)

theorem edits_testElement (table : Table σ) (id : Nat) (data : List Datum) :
    Edits kind table (table.testElement id data).1 := by
  cases found : table.get? id with
  | none =>
      simp only [testElement, found]
      exact .refl table
  | some entry =>
      cases stored : entry.storage with
      | hash hash =>
          simp only [testElement, found, stored]
          exact .refl table
      | list list =>
          simp only [testElement, found, stored]
          exact .refl table
      | foreign storage =>
          simp only [testElement, found, stored]
          exact .single (.foreign (storage_of_get found stored) _)

theorem edits_resize (table : Table σ) (id : Nat) (again : Bool) :
    Edits .add table (table.resize id again).1 := by
  cases found : table.get? id with
  | none =>
      simp only [resize, found]
      exact .refl table
  | some entry =>
      simp only [resize, found]
      cases stored : entry.storage with
      | hash hash =>
          cases grown : hash.resize again with
          | ok new =>
              simp only [Storage.resize, grown]
              exact .single (.hash (storage_of_get found stored) (.resize grown))
          | error fault =>
              simp only [Storage.resize, grown, setStorage_self (storage_of_get found stored)]
              exact .refl table
      | list list => exact .single (.list (storage_of_get found stored) _ rfl)
      | foreign storage => exact .single (.foreign (storage_of_get found stored) _)

theorem edits_addElementResizing (table : Table σ) (id retries : Nat) (data : List Datum) :
    Edits .add table (table.addElementResizing id retries data).1 :=
  settle_preserves (Edits .add table)
    (fun middle before => before.trans (edits_addElement middle id data))
    (fun again middle before => before.trans (edits_resize middle id again))
    retries false (.refl table)

omit [ForeignStorage σ] in
theorem edits_applyBatch {change : Table σ → List Datum → Table σ × Except Fault Unit}
    {allowExisting : Bool} (edits : ∀ table data, Edits kind table (change table data).1)
    (position : Nat) (blocks : List Attr.Raw) (table : Table σ) :
    Edits kind table (Engine.applyBatch change allowExisting position blocks table).1 :=
  Engine.applyBatch_preserves (Edits kind table)
    (fun middle data before => before.trans (edits middle data)) position blocks (.refl table)

/-! ## Flushing -/

theorem edits_flushSlot (table : Table σ) (id : Nat) :
    Edits .delete table (table.flushSlot id) := by
  cases found : table.get? id with
  | none =>
      simp only [flushSlot, found]
      exact .refl table
  | some entry =>
      cases stored : entry.storage with
      | hash hash =>
          simp only [flushSlot, found, stored]
          exact .single (.hash (storage_of_get found stored) .clear)
      | list list =>
          simp only [flushSlot, found, stored]
          exact (Edits.single (.list (storage_of_get found stored) { list with members := [] } rfl)).trans
            (.releaseAll _ list.members)
      | foreign storage =>
          simp only [flushSlot, found, stored]
          exact .single (.foreign (storage_of_get found stored) _)

theorem edits_flush (table : Table σ) (name : String) :
    Edits .delete table (table.flush name).1 := by
  unfold flush
  split
  · exact .refl table
  · exact edits_flushSlot table _

theorem edits_flushAll (table : Table σ) : Edits .delete table table.flushAll :=
  foldl_preserves (Edits .delete table)
    (fun middle id before => before.trans (edits_flushSlot middle id)) _ (.refl table)

/-! ## Packets -/

theorem edits_testPacketWithin {query : Query} {depth : Nat} {found : Bool}
    (ran : testPacketWithin query depth table id = some (after, found)) :
    Edits kind table after := by
  induction depth using Nat.strongRecOn generalizing table id after found with
  | _ depth ih =>
      obtain rfl | ⟨_, _, _, there, stored, rfl⟩ | ⟨_, list, fewer, _, _, rfl, passed⟩ :=
        testPacketWithin_cases ran
      · exact .refl _
      · exact .single (.foreign (storage_of_get there stored) _)
      · exact anySlot_preserves (Edits kind table)
          (fun middle member after found before asked =>
            before.trans (ih fewer (Nat.lt_succ_self fewer) asked))
          (.refl table) passed

theorem edits_testPacket (table : Table σ) (id : Nat) (query : Query) :
    Edits kind table (table.testPacket id query).1 :=
  testPacket_preserves (Edits kind table) (.refl table) fun _ _ => edits_testPacketWithin

theorem edits_changePacketWithin {query : Query} {depth : Nat} {result : Except Fault Unit}
    (ran : changePacketWithin kind query depth table id = some (after, result)) :
    Edits kind table after := by
  induction depth using Nat.strongRecOn generalizing table id after result with
  | _ depth ih =>
      obtain rfl | ⟨_, _, _, there, stored, changed, rfl⟩ | ⟨_, _, _, there, stored, rfl⟩ |
          ⟨_, list, fewer, _, _, rfl, passed⟩ := changePacketWithin_cases ran
      · exact .refl _
      · exact .single (.hash (storage_of_get there stored) (AddressHash.changePacket_edit changed))
      · exact .single (.foreign (storage_of_get there stored) _)
      · exact firstSlot_preserves (Edits kind table)
          (fun middle member after result before asked =>
            before.trans (ih fewer (Nat.lt_succ_self fewer) asked))
          (.refl table) passed

theorem edits_changePacket (table : Table σ) (id : Nat) (query : Query) :
    Edits kind table (table.changePacket id kind query).1 :=
  changePacket_preserves (Edits kind table) (.refl table) fun _ _ => edits_changePacketWithin

end Storages

end NamedSets.Table
