import NamedSets.Proofs.Session.Forwarding
import NamedSets.Proofs.Table.Places

namespace NamedSets.Session

open SetList (Place Fits)

variable {σ : Type} [ForeignStorage σ] {session : Session σ} {slot : Nat} {list : SetList}

/-- A member is deleted exactly if a test finds it. An add that succeeds puts the member behind
all others or next to its reference member, and the others stay in their order; a test then finds
it there, and a delete gives back the table as it was, the members of the list and the numbers of
references included. -/
theorem places_agree (reachable : session.Reachable Balanced)
    (stored : session.table.storage? slot = some (.list list)) (data : List Datum) :
    ((session.table.deleteElement slot data).2 = .ok () ↔
      (session.table.testElement slot data).2 = .ok true) ∧
    ∀ added, session.Balanced (.addElement slot data) →
      session.table.addElement slot data = (added, .ok ()) →
        ∃ place member front back, Place.ofData data = .ok place ∧
          session.table.find? place.name.text = some member ∧ member ∉ list.members ∧
          list.members = front ++ back ∧ Fits session.table place front back ∧
          added.storage? slot = some (.list { list with members := front ++ member :: back }) ∧
          (added.testElement slot data).2 = .ok true ∧
          added.deleteElement slot data = (session.table, .ok ()) := by
  refine ⟨Table.deleteElement_ok_iff stored data, fun added balanced accepted => ?_⟩
  have room : session.table.Room := reachable.sound.room Nat.one_pos balanced.before
  obtain ⟨place, member, front, back, described, adds⟩ := Table.addElement_adds stored accepted
  exact ⟨place, member, front, back, described, adds.named, adds.fresh, adds.members, adds.fits,
    adds.storage stored, adds.test stored described, adds.delete stored described room⟩

def thirdName : SetName where
  text := "v4b"
  nonempty := by decide
  short := by decide
  noNul := by decide

def thirdMade : List (Operation Empty) := familiesJoined ++ [creating thirdName "hash:ip"]

def threeSets : Session Empty := (fresh { maxSets := 4 } .builtin).run thirdMade

def beforeSecond : List Datum := [.name thirdName, .nameRef secondName, .elementFlags 1]

theorem places_agree_threeSets :
    threeSets.Reachable Balanced ∧ threeSets.Balanced (.addElement 2 beforeSecond) ∧
      threeSets.table.members 2 = [0, 1] ∧
      ∃ added, threeSets.table.addElement 2 beforeSecond = (added, .ok ()) ∧
        added.members 2 = [0, 3, 1] ∧ (added.testElement 2 beforeSecond).2 = .ok true ∧
        added.deleteElement 2 beforeSecond = (threeSets.table, .ok ()) := by
  have few : (fresh { maxSets := 4 } .builtin : Session Empty).AllBalanced thirdMade :=
    .of_few (by simp [thirdMade, familiesJoined, creating, Operation.Direct]) (by decide +kernel)
  have reachable : threeSets.Reachable Balanced :=
    (Reachable.fresh Balanced { maxSets := 4 } .builtin).run few
  have balanced : threeSets.Balanced (.addElement 2 beforeSecond) :=
    .of_few trivial (by decide +kernel)
  have listed : threeSets.table.members 2 = [0, 1] := by decide +kernel
  have accepted : threeSets.table.addElement 2 beforeSecond =
      ((threeSets.table.addElement 2 beforeSecond).1, .ok ()) := Prod.ext rfl (by decide +kernel)
  have occupied : (threeSets.table.get? 2).isSome := by decide +kernel
  obtain ⟨entry, found⟩ := Option.isSome_iff_exists.mp occupied
  have same := Table.members_of_get found
  rw [listed] at same
  cases kind : entry.storage with
  | list list =>
      obtain ⟨-, agrees⟩ := places_agree reachable (Table.storage_of_get found kind) beforeSecond
      obtain ⟨_, _, _, _, -, -, -, -, -, -, tested, restored⟩ := agrees _ balanced accepted
      exact ⟨reachable, balanced, listed, _, accepted, by decide +kernel, tested, restored⟩
  | hash hash => simp [kind, Storage.members] at same
  | foreign inner => exact inner.elim

end NamedSets.Session
