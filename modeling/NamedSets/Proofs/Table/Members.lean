import Mathlib.Data.List.Perm.Basic
import NamedSets.Proofs.Table.Slots
import NamedSets.Table.Members

namespace NamedSets.SetList

variable {σ : Type} {list grown : SetList} {table : Table σ} {member position : Nat}

theorem lt_length_of_position (found : list.position? member = some position) :
    position < list.members.length := (List.idxOf?_eq_some_iff.mp found).1

/-- The members are those left and the one taken out. -/
theorem perm_eraseAt (found : list.position? member = some position) :
    (member :: (list.eraseAt position).members).Perm list.members := by
  obtain ⟨inside, same, _⟩ := List.idxOf?_eq_some_iff.mp found
  have taken := List.getElem_cons_eraseIdx_perm inside
  rwa [same] at taken

theorem positionFor_le {place : Place} (found : list.positionFor table place = .ok position) :
    position ≤ list.members.length := by
  unfold positionFor at found
  split at found
  · cases found
    exact Nat.le_refl _
  · split at found
    · contradiction
    · split at found
      · contradiction
      · rename_i slot reference
        have inside := lt_length_of_position reference
        cases found
        split <;> omega

/-- What a list checks before it accepts a member, and what it becomes. -/
theorem insert_ok {place : Place} (accepted : list.insert table place member = .ok grown) :
    ∃ entry position, table.get? member = some entry ∧
      entry.type.features.listedLast = false ∧ member ∉ list.members ∧
      list.positionFor table place = .ok position ∧
      list.members.length < list.size.toNat ∧ grown = list.insertAt position member := by
  unfold insert at accepted
  cases found : table.get? member with
  | none => simp [found] at accepted
  | some entry =>
      simp only [found] at accepted
      split at accepted
      · contradiction
      · rename_i plain
        split at accepted
        · contradiction
        · rename_i fresh
          cases place' : list.positionFor table place with
          | error fault => simp [place'] at accepted
          | ok position =>
              simp only [place'] at accepted
              split at accepted
              · contradiction
              · rename_i room
                cases accepted
                refine ⟨entry, position, rfl, by simpa using plain, ?_, rfl, by omega, rfl⟩
                exact fun present => fresh (List.isSome_idxOf?.mpr present)

theorem perm_insertAt (inside : position ≤ list.members.length) (member : Nat) :
    (list.insertAt position member).members.Perm (member :: list.members) :=
  List.perm_insertIdx member list.members inside

/-- An add either leaves the table as it is, or takes a reference to a member, which it
gives back if the list refuses the member. -/
theorem add_cases (list : SetList) (table : Table σ) (data : List Datum) :
    (∃ fault, list.add table data = (table, .error fault)) ∨
    (∃ place member, Place.ofData data = .ok place ∧
      table.find? place.name.text = some member ∧
      ((∃ fault, list.insert (table.hold member) place member = .error fault ∧
          list.add table data = ((table.hold member).release member, .error fault)) ∨
        (∃ grown, list.insert (table.hold member) place member = .ok grown ∧
          list.add table data = (table.hold member, .ok grown)))) := by
  cases described : Place.ofData data with
  | error fault => exact .inl ⟨fault, by simp only [add, described]⟩
  | ok place =>
      cases found : table.find? place.name.text with
      | none => exact .inl ⟨.noSuchMemberSet, by simp only [add, described, found]⟩
      | some member =>
          refine .inr ⟨place, member, rfl, found, ?_⟩
          cases outcome : list.insert (table.hold member) place member with
          | error fault => exact .inl ⟨fault, rfl, by simp only [add, described, found, outcome]⟩
          | ok grown => exact .inr ⟨grown, rfl, by simp only [add, described, found, outcome]⟩

/-- A delete either leaves the table as it is, or takes a member out and gives back the
reference to it. -/
theorem delete_cases (list : SetList) (table : Table σ) (data : List Datum) :
    (∃ fault, list.delete table data = (table, .error fault)) ∨
    (∃ place member position, Place.ofData data = .ok place ∧
      table.find? place.name.text = some member ∧ list.position? member = some position ∧
      list.delete table data = (table.release member, .ok (list.eraseAt position))) := by
  cases described : Place.ofData data with
  | error fault => exact .inl ⟨fault, by simp only [delete, described]⟩
  | ok place =>
      cases found : table.find? place.name.text with
      | none => exact .inl ⟨.noSuchMemberSet, by simp only [delete, described, found]⟩
      | some member =>
          cases stands : list.position? member with
          | none => exact .inl ⟨.notMember, by simp only [delete, described, found, stands]⟩
          | some position =>
              have outcome : (∃ fault, list.delete table data = (table, .error fault)) ∨
                  list.delete table data = (table.release member, .ok (list.eraseAt position)) := by
                cases next : place.reference with
                | none => exact .inr (by simp only [delete, described, found, stands, next])
                | some reference =>
                    cases slot : table.find? reference.text with
                    | none =>
                        exact .inl ⟨.noSuchReferenceSet, by
                          simp only [delete, described, found, stands, next, slot]⟩
                    | some neighbour =>
                        by_cases beside : list.neighbour? position place.before = some neighbour
                        · exact .inr (by
                            simp only [delete, described, found, stands, next, slot, if_pos beside])
                        · exact .inl ⟨.notMember, by
                            simp only [delete, described, found, stands, next, slot, if_neg beside]⟩
              exact outcome.imp id fun taken => ⟨place, member, position, rfl, found, stands, taken⟩

end NamedSets.SetList
