import NamedSets.Proofs.Table.Balance
import NamedSets.Proofs.Table.Labels

/-!
# Places of members

Element data say next to which member another one stands. An add puts it there, between the
members in front of the place and behind it, and a test and a delete look for it there.
-/

namespace NamedSets

namespace SetList

variable {σ : Type} {list grown : SetList} {table after : Table σ} {place : Place}
  {data : List Datum} {member position slot : Nat} {front back : List Nat}

/-! ## Where a member is put -/

/-- A member is put between two parts of a list if it is to be behind all others, or if one of
the members beside it is the one that it is to be next to. -/
inductive Fits (table : Table σ) (place : Place) : List Nat → List Nat → Prop
  | last {front : List Nat} (alone : place.reference = none) : Fits table place front []
  | before {reference : SetName} {slot : Nat} {front back : List Nat}
      (next : place.reference = some reference) (found : table.find? reference.text = some slot)
      (asked : place.before = true) : Fits table place front (slot :: back)
  | behind {reference : SetName} {slot : Nat} {front back : List Nat}
      (next : place.reference = some reference) (found : table.find? reference.text = some slot)
      (asked : place.before = false) : Fits table place (front ++ [slot]) back

theorem Fits.congr (same : Table.SameLabels table after) (fits : Fits table place front back) :
    Fits after place front back := by
  cases fits with
  | last alone => exact .last alone
  | before next found asked => exact .before next ((same.find_eq _).trans found) asked
  | behind next found asked => exact .behind next ((same.find_eq _).trans found) asked

theorem insertIdx_between (front back : List Nat) (member : Nat) :
    (front ++ back).insertIdx front.length member = front ++ member :: back := by
  induction front with
  | nil => rfl
  | cons first rest ih => simp [ih]

/-- A list is taken apart at a member. -/
theorem exists_around (stands : list.position? slot = some position) :
    ∃ front back, list.members = front ++ slot :: back ∧ front.length = position := by
  obtain ⟨inside, same, -⟩ := List.idxOf?_eq_some_iff.mp stands
  refine ⟨list.members.take position, list.members.drop (position + 1), ?_, ?_⟩
  · rw [← same, List.getElem_cons_drop, List.take_append_drop]
  · exact List.length_take_of_le (Nat.le_of_lt inside)

theorem positionFor_fits (placed : list.positionFor table place = .ok position) :
    ∃ front back, list.members = front ++ back ∧ front.length = position ∧
      Fits table place front back := by
  unfold positionFor at placed
  cases next : place.reference with
  | none =>
      simp only [next, Except.ok.injEq] at placed
      exact ⟨list.members, [], (List.append_nil _).symm, placed, .last next⟩
  | some reference =>
      simp only [next] at placed
      cases found : table.find? reference.text with
      | none => simp [found] at placed
      | some slot =>
          simp only [found] at placed
          cases stands : list.position? slot with
          | none => simp [stands] at placed
          | some there =>
              simp only [stands, Except.ok.injEq] at placed
              obtain ⟨front, back, members, length⟩ := exists_around stands
              cases asked : place.before with
              | true =>
                  rw [asked, if_pos rfl] at placed
                  exact ⟨front, slot :: back, members, length.trans placed,
                    .before next found asked⟩
              | false =>
                  rw [asked] at placed
                  refine ⟨front ++ [slot], back, by rw [members, List.append_cons], ?_,
                    .behind next found asked⟩
                  rw [List.length_append, length]
                  exact placed

/-! ## Where a member is looked for -/

structure Stands (list : SetList) (table : Table σ) (place : Place) (member position : Nat) :
    Prop where
  named : table.find? place.name.text = some member
  here : list.position? member = some position
  beside : ∀ reference, place.reference = some reference → ∃ slot,
    table.find? reference.text = some slot ∧ list.neighbour? position place.before = some slot

theorem Stands.test_eq (stands : list.Stands table place member position)
    (described : Place.ofData data = .ok place) : list.test table data = .ok true := by
  cases next : place.reference with
  | none => simp only [test, described, stands.named, stands.here, next]
  | some reference =>
      obtain ⟨slot, found, neighbour⟩ := stands.beside reference next
      simp only [test, described, stands.named, stands.here, next, neighbour, found, decide_true]

theorem Stands.delete_eq (stands : list.Stands table place member position)
    (described : Place.ofData data = .ok place) :
    list.delete table data = (table.release member, .ok (list.eraseAt position)) := by
  cases next : place.reference with
  | none => simp only [delete, described, stands.named, stands.here, next]
  | some reference =>
      obtain ⟨slot, found, neighbour⟩ := stands.beside reference next
      simp only [delete, described, stands.named, stands.here, next, found, if_pos neighbour]

/-- What a test finds stands where the data say. -/
theorem stands_of_test (found : list.test table data = .ok true) :
    ∃ place member position, Place.ofData data = .ok place ∧
      list.Stands table place member position := by
  unfold test at found
  split at found
  · cases found
  · rename_i place described
    split at found
    · cases found
    · rename_i member named
      split at found
      · cases found
      · rename_i position here
        refine ⟨place, member, position, described, named, here, fun reference next => ?_⟩
        simp only [next] at found
        split at found
        · cases found
        · rename_i neighbour there
          exact ⟨neighbour, of_decide_eq_true (Except.ok.inj found), there⟩

/-- What a delete takes out stands where the data say. -/
theorem stands_of_delete (removed : (list.delete table data).2 = .ok grown) :
    ∃ place member position, Place.ofData data = .ok place ∧
      list.Stands table place member position := by
  unfold delete at removed
  split at removed
  · cases removed
  · rename_i place described
    split at removed
    · cases removed
    · rename_i member named
      split at removed
      · cases removed
      · rename_i position here
        refine ⟨place, member, position, described, named, here, fun reference next => ?_⟩
        simp only [next] at removed
        split at removed
        · cases removed
        · rename_i slot there
          split at removed
          · rename_i neighbour
            exact ⟨slot, there, neighbour⟩
          · cases removed

/-- A delete takes out exactly what a test finds. -/
theorem delete_ok_iff (list : SetList) (table : Table σ) (data : List Datum) :
    (∃ left, (list.delete table data).2 = .ok left) ↔ list.test table data = .ok true := by
  constructor
  · rintro ⟨left, removed⟩
    obtain ⟨place, member, position, described, stands⟩ := stands_of_delete removed
    exact stands.test_eq described
  · intro found
    obtain ⟨place, member, position, described, stands⟩ := stands_of_test found
    exact ⟨_, congrArg Prod.snd (stands.delete_eq described)⟩

/-! ## A member that has been put somewhere -/

def between (list : SetList) (front : List Nat) (member : Nat) (back : List Nat) : SetList :=
  { list with members := front ++ member :: back }

theorem insertAt_between (members : list.members = front ++ back) (member : Nat) :
    list.insertAt front.length member = list.between front member back := by
  rw [insertAt, members, insertIdx_between, between]

theorem eraseAt_between (members : list.members = front ++ back) (member : Nat) :
    (list.between front member back).eraseAt front.length = list := by
  rw [eraseAt, between]
  simp only [List.eraseIdx_append_of_length_le (Nat.le_refl _), Nat.sub_self,
    List.eraseIdx_cons_zero, ← members]

theorem position_between (fresh : member ∉ front) (back : List Nat) :
    (list.between front member back).position? member = some front.length := by
  change List.idxOf? member (front ++ member :: back) = some front.length
  induction front with
  | nil => simp [List.idxOf?_cons]
  | cons first rest ih =>
      have different : (first == member) = false :=
        beq_false_of_ne fun same => fresh (same ▸ List.mem_cons_self)
      have others : member ∉ rest := fun later => fresh (List.mem_cons_of_mem first later)
      rw [List.cons_append, List.idxOf?_cons, different, ih others]
      rfl

theorem Fits.stands (fits : Fits table place front back)
    (named : table.find? place.name.text = some member) (fresh : member ∉ front) :
    (list.between front member back).Stands table place member front.length where
  named := named
  here := position_between fresh back
  beside reference next := by
    cases fits with
    | last alone =>
        rw [alone] at next
        cases next
    | before next' found asked =>
        cases next'.symm.trans next
        exact ⟨_, found, by simp [neighbour?, between, asked]⟩
    | behind next' found asked =>
        cases next'.symm.trans next
        exact ⟨_, found, by simp [neighbour?, between, asked]⟩

end SetList

/-! ## Elements of lists in a table -/

namespace Table

open SetList (Place Fits)

variable {σ : Type} [ForeignStorage σ] {table added : Table σ} {list : SetList} {slot : Nat}
  {data : List Datum}

/-- A member is deleted exactly if a test finds it. -/
theorem deleteElement_ok_iff (stored : table.storage? slot = some (.list list))
    (data : List Datum) : (table.deleteElement slot data).2 = .ok () ↔
      (table.testElement slot data).2 = .ok true := by
  rw [deleteElement_of_list stored, testElement_of_list stored,
    ← list.delete_ok_iff table data]
  cases (list.delete table data).2 with
  | ok left => simp [storing]
  | error fault => simp [storing]

/-- What an add of a member comes to: a reference to the member is taken, and it is put where the
data say. -/
structure Adds (table added : Table σ) (slot : Nat) (list : SetList) (place : Place)
    (member : Nat) (front back : List Nat) : Prop where
  named : table.find? place.name.text = some member
  fresh : member ∉ list.members
  members : list.members = front ++ back
  fits : Fits table place front back
  added : added = (table.hold member).setStorage slot (.list (list.between front member back))

theorem addElement_adds (stored : table.storage? slot = some (.list list))
    (accepted : table.addElement slot data = (added, .ok ())) :
    ∃ place member front back, Place.ofData data = .ok place ∧
      table.Adds added slot list place member front back := by
  rw [addElement_of_list stored] at accepted
  obtain ⟨fault, refused⟩ | ⟨place, member, described, named, outcome⟩ := list.add_cases table data
  · rw [refused] at accepted
    cases accepted
  · obtain ⟨fault, -, refused⟩ | ⟨grown, inserted, outcome⟩ := outcome
    · rw [refused] at accepted
      cases accepted
    · obtain ⟨_, position, -, -, fresh, placed, -, rfl⟩ := SetList.insert_ok inserted
      obtain ⟨front, back, members, rfl, fits⟩ := SetList.positionFor_fits placed
      rw [outcome, SetList.insertAt_between members] at accepted
      refine ⟨place, member, front, back, described, named, fresh, members, ?_, ?_⟩
      · exact fits.congr (SameLabels.hold table member).symm
      · exact (congrArg Prod.fst accepted).symm

namespace Adds

variable {place : Place} {member : Nat} {front back : List Nat}

omit [ForeignStorage σ] in
theorem storage (adds : table.Adds added slot list place member front back)
    (stored : table.storage? slot = some (.list list)) :
    added.storage? slot = some (.list (list.between front member back)) := by
  rw [adds.added, storage_setStorage ((table.storage_hold member slot).trans stored), if_pos rfl]

omit [ForeignStorage σ] in
theorem stands (adds : table.Adds added slot list place member front back) :
    (list.between front member back).Stands added place member front.length := by
  have labels : SameLabels table added := by
    rw [adds.added]
    exact (SameLabels.hold table member).trans (.setStorage _ slot _)
  refine (adds.fits.congr labels).stands ((labels.find_eq _).trans adds.named) fun before => ?_
  exact adds.fresh (adds.members ▸ List.mem_append_left back before)

/-- The member is found where it was put. -/
theorem test (adds : table.Adds added slot list place member front back)
    (stored : table.storage? slot = some (.list list))
    (described : Place.ofData data = .ok place) : (added.testElement slot data).2 = .ok true := by
  rw [testElement_of_list (adds.storage stored), adds.stands.test_eq described]

/-- Deleting the member again gives the table back. -/
theorem delete (adds : table.Adds added slot list place member front back)
    (stored : table.storage? slot = some (.list list))
    (described : Place.ofData data = .ok place) (room : table.Room) :
    added.deleteElement slot data = (table, .ok ()) := by
  obtain ⟨entry, occupied, -⟩ := get_of_find adds.named
  have restored : (added.release member).setStorage slot (.list list) = table := by
    rw [adds.added, setStorage_release, setStorage_setStorage, ← setStorage_release,
      release_hold occupied (room member entry occupied), setStorage_self stored]
  rw [deleteElement_of_list (adds.storage stored), adds.stands.delete_eq described,
    SetList.eraseAt_between adds.members]
  exact congrArg (·, _) restored

end Adds

end Table

end NamedSets
