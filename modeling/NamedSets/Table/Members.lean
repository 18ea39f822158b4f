import NamedSets.Table.Basic

/-!
# Members of lists of sets

Every member is held by a reference to its slot, so that it can be neither removed nor
renamed while it is listed. A list of sets is not accepted as a member.
-/

namespace NamedSets.SetList

variable {σ : Type}

/-- Where a new member goes: behind all others, or next to its reference member. -/
def positionFor (list : SetList) (table : Table σ) (place : Place) : Except Fault Nat :=
  match place.reference with
  | none => .ok list.members.length
  | some reference =>
      match table.find? reference.text with
      | none => .error .noSuchReferenceSet
      | some slot =>
          match list.position? slot with
          | none => .error .referenceNotMember
          | some position => .ok (if place.before then position else position + 1)

def insert (list : SetList) (table : Table σ) (place : Place) (member : Nat) :
    Except Fault SetList :=
  match table.get? member with
  | none => .error .noSuchMemberSet
  | some entry =>
      if entry.type.features.listedLast then .error .listInList
      else if (list.position? member).isSome then .error .alreadyMember
      else
        match list.positionFor table place with
        | .error fault => .error fault
        | .ok position =>
            if list.size.toNat ≤ list.members.length then .error .listFull
            else .ok (list.insertAt position member)

/-- Adds a member. The reference to it is taken first and given back if the list refuses
the member. -/
def add (list : SetList) (table : Table σ) (data : List Datum) :
    Table σ × Except Fault SetList :=
  match Place.ofData data with
  | .error fault => (table, .error fault)
  | .ok place =>
      match table.find? place.name.text with
      | none => (table, .error .noSuchMemberSet)
      | some member =>
          let held := table.hold member
          match list.insert held place member with
          | .ok grown => (held, .ok grown)
          | .error fault => (held.release member, .error fault)

def test (list : SetList) (table : Table σ) (data : List Datum) : Except Fault Bool :=
  match Place.ofData data with
  | .error fault => .error fault
  | .ok place =>
      match table.find? place.name.text with
      | none => .error .noSuchMemberSet
      | some member =>
          match list.position? member with
          | none => .ok false
          | some position =>
              match place.reference with
              | none => .ok true
              | some reference =>
                  match list.neighbour? position place.before with
                  | none => .ok false
                  | some neighbour => .ok (table.find? reference.text = some neighbour)

def delete (list : SetList) (table : Table σ) (data : List Datum) :
    Table σ × Except Fault SetList :=
  match Place.ofData data with
  | .error fault => (table, .error fault)
  | .ok place =>
      match table.find? place.name.text with
      | none => (table, .error .noSuchMemberSet)
      | some member =>
          match list.position? member with
          | none => (table, .error .notMember)
          | some position =>
              match place.reference with
              | none => (table.release member, .ok (list.eraseAt position))
              | some reference =>
                  match table.find? reference.text with
                  | none => (table, .error .noSuchReferenceSet)
                  | some slot =>
                      if list.neighbour? position place.before = some slot then
                        (table.release member, .ok (list.eraseAt position))
                      else (table, .error .notMember)

/-- The members from a position on, each as a data block and with the position behind
it. A member whose slot is empty is passed over. -/
def listing (list : SetList) (table : Table σ) (start : Nat) : List (Option Attr.Tree × Nat) :=
  (list.members.drop start).zipIdx (start + 1) |>.map fun (member, next) =>
    ((table.name? member).map fun name => Message.Argument.dataBlock [.name name], next)

end NamedSets.SetList
