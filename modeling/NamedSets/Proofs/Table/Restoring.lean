import NamedSets.Proofs.Storage.Parameters
import NamedSets.Proofs.Table.Listable
import NamedSets.Proofs.Table.Nesting

namespace NamedSets

variable {σ : Type} [ForeignStorage σ]

/-- The storage of a built-in set can be made again by the type of the set. -/
theorem Entry.make_creationData {entry : Entry σ} (builtin : entry.Builtin)
    (regular : entry.storage.Regular entry.family) :
    entry.type.maker.make entry.family entry.storage.creationData = .ok entry.storage.emptied := by
  unfold Entry.Builtin at builtin
  split at builtin
  · rename_i hash stored
    rw [stored] at regular ⊢
    rw [builtin, SetType.addressHash, Maker.make]
    simp only [Storage.creationData, AddressHash.create_creationData regular, Storage.emptied]
  · rename_i list stored
    rw [stored] at regular ⊢
    rw [builtin, SetType.setList, Maker.make]
    simp only [Storage.creationData, SetList.create_creationData regular, Storage.emptied]
  · exact builtin.elim

namespace Table

variable {table after : Table σ} {id slot : Nat} {entry : Entry σ}

theorem lasting_regular : Lasting fun family (storage : Storage σ) => storage.Regular family where
  made := by
    intro maker family data storage made
    obtain ⟨_, created, rfl⟩ | rfl | ⟨_, rfl⟩ := Maker.make_cases made
    · exact AddressHash.create_regular created
    · exact SetList.leastSize_le_create data
    · trivial
  hash regular edit := AddressHash.Regular.edit regular edit
  list := by
    intro family old new large same
    change _ ≤ new.size.toNat
    rw [same]
    exact large
  foreign _ := trivial

/-! ## Adding element after element -/

def addElements (table : Table σ) (id : Nat) : List (List Datum) → Table σ × Except Fault Unit
  | [] => (table, .ok ())
  | data :: rest =>
      match table.addElement id data with
      | (added, .ok ()) => added.addElements id rest
      | (added, .error fault) => (added, .error fault)

/-- If what holds with some elements added goes on to hold with every further one, all of them
are added. -/
theorem addElements_steps {α : Type} {tells : α → List Datum → Prop}
    (holds : Table σ → List α → Prop) {front rest all : List α} {data : List (List Datum)}
    (step : ∀ {table : Table σ} {front : List α} {element : α} {rest : List α} {data : List Datum},
      holds table front → front ++ element :: rest = all → tells element data →
        ∃ added, table.addElement id data = (added, .ok ()) ∧ holds added (front ++ [element]))
    (before : holds table front) (whole : front ++ rest = all)
    (told : List.Forall₂ tells rest data) :
    ∃ after, table.addElements id data = (after, .ok ()) ∧ holds after all := by
  induction told generalizing table front with
  | nil => exact ⟨table, rfl, by rwa [← whole, List.append_nil]⟩
  | cons said _ ih =>
      obtain ⟨added, accepted, next⟩ := step before whole said
      rw [List.append_cons] at whole
      obtain ⟨after, others, there⟩ := ih next whole
      exact ⟨after, by simp only [addElements, accepted, others], there⟩

private theorem fresh_of_nodup {α : Type} {front rest all : List α} {element : α}
    (whole : front ++ element :: rest = all) (distinct : all.Nodup) :
    element ∉ front ∧ front.length < all.length := by
  subst whole
  refine ⟨fun before => ?_, by simp⟩
  exact (List.nodup_cons.mp (List.nodup_middle.mp distinct)).1 (List.mem_append_left _ before)

theorem addElement_hash {hash grown : AddressHash} {address : Address}
    (stored : table.storage? id = some (.hash hash))
    (masked : hash.element address = .ok address) (accepted : hash.insert address = .ok grown) :
    table.addElement id [.ip address] = (table.setStorage id (.hash grown), .ok ()) := by
  have described : hash.elementOfData [.ip address] = .ok address := by
    rw [AddressHash.elementOfData_ip, masked]
  rw [addElement_of_hash stored described, accepted]
  rfl

theorem addElements_hash {hash : AddressHash} {addresses : List Address}
    (stored : table.storage? id = some (.hash (hash.withAddresses [])))
    (distinct : addresses.Nodup) (fewer : addresses.length ≤ hash.maxElements.toNat)
    (room : addresses.length ≤ hash.hashSize)
    (masked : ∀ address ∈ addresses, hash.element address = .ok address) :
    ∃ after,
      table.addElements id (addresses.map fun address => [.ip address]) = (after, .ok ()) ∧
      after.storage? id = some (.hash (hash.withAddresses addresses)) := by
  have told : List.Forall₂ (fun address data => data = [.ip address]) addresses
      (addresses.map fun address => [Datum.ip address]) := by
    rw [List.forall₂_map_right_iff, List.forall₂_same]
    exact fun _ _ => rfl
  refine addElements_steps
    (fun middle front => middle.storage? id = some (.hash (hash.withAddresses front)))
    ?_ stored (List.nil_append _) told
  rintro middle front address rest _ there whole rfl
  obtain ⟨fresh, shorter⟩ := fresh_of_nodup whole distinct
  have itself := masked address (by rw [← whole]; simp)
  have accepted := AddressHash.insert_withAddresses fresh (Nat.lt_of_lt_of_le shorter fewer)
    (Nat.lt_of_lt_of_le shorter room)
  refine ⟨_, addElement_hash there itself accepted, ?_⟩
  rw [storage_setStorage there, if_pos rfl]

def Names (table : Table σ) (member : Nat) (data : List Datum) : Prop :=
  ∃ name, table.name? member = some name ∧ data = [.name name]

theorem addElement_list {list : SetList} {member : Nat} {name : SetName}
    (names : table.NamesDistinct) (stored : table.storage? id = some (.list list))
    (named : table.name? member = some name) (plain : table.Plain member)
    (fresh : member ∉ list.members) (room : list.members.length < list.size.toNat) :
    table.addElement id [.name name] = ((table.hold member).setStorage id
      (.list { list with members := list.members ++ [member] }), .ok ()) := by
  obtain ⟨set, there, ordinary⟩ := plain
  have sameName : set.name = name := by simpa [name?, there] using named
  have looked : table.find? name.text = some member :=
    (get_of_lookup (names.lookup_iff.mpr ⟨there, congrArg SetName.text sameName⟩)).1
  have held := get_hold there
  have absent : ¬ (list.position? member).isSome = true := fun present =>
    fresh (List.isSome_idxOf?.mp present)
  have accepted : list.insert (table.hold member) { name, before := false, reference := none }
      member = .ok { list with members := list.members ++ [member] } := by
    simp only [SetList.insert, held]
    rw [if_neg (by simp [Entry.hold, ordinary]), if_neg absent]
    simp only [SetList.positionFor, if_neg (Nat.not_le.mpr room), SetList.insertAt,
      List.insertIdx_length_self]
  have described : SetList.Place.ofData [.name name] =
      .ok { name, before := false, reference := none } := rfl
  simp only [addElement_of_list stored, SetList.add, described, looked, accepted, storing]

theorem addElements_list {list : SetList} {data : List (List Datum)}
    (names : table.NamesDistinct)
    (stored : table.storage? id = some (.list { list with members := [] }))
    (told : List.Forall₂ table.Names list.members data) (distinct : list.members.Nodup)
    (room : list.members.length ≤ list.size.toNat)
    (plain : ∀ member ∈ list.members, table.Plain member) :
    ∃ after, table.addElements id data = (after, .ok ()) ∧
      after.storage? id = some (.list list) := by
  -- On the way the labels stay as they were, so that the members are found under their names.
  obtain ⟨after, added, -, there⟩ := addElements_steps
    (fun middle front => SameLabels table middle ∧
      middle.storage? id = some (.list { list with members := front }))
    (by
      rintro middle front member rest _ ⟨labels, there⟩ whole ⟨name, named, rfl⟩
      obtain ⟨fresh, shorter⟩ := fresh_of_nodup whole distinct
      have ordinary := plain member (by rw [← whole]; simp)
      refine ⟨_, addElement_list (names.of_sameLabels labels) there
        ((labels.name member).trans named) (ordinary.of_sameLabels labels) fresh
        (Nat.lt_of_lt_of_le shorter room), ?_, ?_⟩
      · exact labels.trans ((SameLabels.hold middle member).trans (.setStorage _ id _))
      · rw [storage_setStorage ((middle.storage_hold member id).trans there), if_pos rfl])
    ⟨.refl table, stored⟩ (List.nil_append _) told
  exact ⟨after, added, there⟩

/-! ## Adding all elements of a set -/

omit [ForeignStorage σ] in
theorem names_elements {members : List Nat} (offset : Nat)
    (named : ∀ member ∈ members, ∃ name, table.name? member = some name ∧
      after.name? member = some name) :
    List.Forall₂ after.Names members
      (((members.zipIdx offset).filterMap table.memberElement).map (·.2)) := by
  induction members generalizing offset with
  | nil => exact .nil
  | cons member rest ih =>
      obtain ⟨⟨name, first, here⟩, others⟩ := List.forall_mem_cons.mp named
      have listed : table.memberElement (member, offset) = some (offset, [.name name]) := by
        simp only [memberElement, first, Option.map_some]
      rw [List.zipIdx_cons, List.filterMap_cons_some listed, List.map_cons]
      exact .cons ⟨name, here, rfl⟩ (ih (offset + 1) others)

/-- Whatever a set lists can be added to an emptied copy of it, in the same table or another
one in which the members have the same names. -/
theorem addElements_emptied (table : Table σ) (names : after.NamesDistinct) (valid : entry.Valid)
    (hash : ∀ hash, entry.storage = .hash hash → hash.Valid)
    (regular : entry.storage.Regular entry.family)
    (stored : after.storage? id = some entry.storage.emptied)
    (named : ∀ member ∈ entry.storage.members, ∃ name, table.name? member = some name ∧
      after.name? member = some name)
    (plain : ∀ member ∈ entry.storage.members, after.Plain member) :
    ∃ restored, after.addElements id ((table.elements entry.storage).map (·.2)) =
        (restored, .ok ()) ∧ restored.storage? id = some entry.storage.renewed := by
  have distinct := valid.distinct
  have bounded := valid.bounded
  cases kind : entry.storage with
  | hash current =>
      rw [kind] at regular stored
      have sound := hash current kind
      have data : (table.elements (.hash current)).map (·.2) =
          (current.elements.map (·.2)).map fun address => [.ip address] := by
        simp [elements]
      have masked : ∀ address ∈ current.elements.map (·.2), current.element address = .ok address := by
        intro address present
        obtain ⟨element, among, rfl⟩ := List.mem_map.mp present
        exact AddressHash.Regular.masked regular element among
      rw [data]
      exact addElements_hash stored sound.distinct (by simpa using sound.bounded)
        (by simpa using AddressHash.Regular.room regular) masked
  | list current =>
      rw [kind] at stored named plain distinct
      exact addElements_list names stored (names_elements 0 named) distinct (bounded current kind)
        plain
  | foreign inner =>
      have builtin := valid.builtin trivial
      rw [Entry.Builtin, kind] at builtin
      exact builtin.elim

/-- A set can be made again under a name that is not in use. -/
theorem create_restores {outside : List Nat} (creation : Creation) (sound : table.Sound outside)
    (names : table.NamesDistinct) (hashes : table.HashesValid)
    (regular : table.Throughout fun family storage => storage.Regular family)
    (found : table.get? slot = some entry) (unused : table.find? creation.name.text = none)
    (free : table.free? = some id) :
    ∃ created restored,
      table.create creation entry.type entry.storage.emptied = (created, .ok id) ∧
      created.addElements id ((table.elements entry.storage).map (·.2)) = (restored, .ok ()) ∧
      restored.storage? id = some entry.storage.renewed := by
  obtain ⟨vacant, inside, -⟩ := get_eq_none_of_free free
  obtain ⟨_, _, looked, -⟩ | ⟨-, full, -⟩ | ⟨_, -, first, made⟩ :=
    create_cases table creation entry.type entry.storage.emptied
  · rw [lookup_eq_none_iff.mpr unused] at looked
    contradiction
  · rw [free] at full
    contradiction
  cases free.symm.trans first
  have plain := sound.plain_of_get found
  have stored : (table.set id (some (creation.newSet entry.type entry.storage.emptied))).storage? id =
      some entry.storage.emptied := by
    rw [storage_set_inside inside, if_pos rfl]
    rfl
  -- The members are where they were, since the new set has come into an empty slot.
  have elsewhere : ∀ member ∈ entry.storage.members, id ≠ member := by
    rintro member present rfl
    obtain ⟨set, occupied, -⟩ := plain id present
    simp [vacant] at occupied
  obtain ⟨restored, added, there⟩ := addElements_emptied table
    (names.set_unused inside unused) (sound.valid found)
    (fun hash stored => hashes slot hash (storage_of_get found stored)) (regular slot entry found)
    stored
    (fun member present => by
      obtain ⟨set, occupied, -⟩ := plain member present
      refine ⟨set.name, by rw [name?, occupied, Option.map_some], ?_⟩
      rw [name?, get_set_inside inside, if_neg (elsewhere member present), occupied,
        Option.map_some])
    fun member present =>
      (plain member present).set inside fun same => absurd same (elsewhere member present)
  exact ⟨_, restored, made, added, there⟩

/-- Creation with the name and the parameters of a set finds the set. -/
theorem create_finds {outside : List Nat} (creation : Creation) (sound : table.Sound outside)
    (names : table.NamesDistinct) (found : table.get? slot = some entry)
    (sameName : creation.name = entry.name) (sameFamily : creation.family = entry.family)
    (allowed : creation.allowExisting = true) :
    table.create creation entry.type entry.storage.emptied = (table, .ok slot) := by
  have looked : table.lookup? creation.name.text = some (slot, entry) :=
    names.lookup_iff.mpr ⟨found, by rw [sameName]⟩
  have builtin : ∀ inner, entry.storage ≠ .foreign inner := fun _ => sound.not_foreign found
  have met : creation.isMetBy entry.type entry.storage.emptied entry = true := by
    simp [Creation.isMetBy, allowed, sameFamily, Storage.sameParameters_emptied builtin]
  rw [create_found looked, if_pos met]

end Table

end NamedSets
