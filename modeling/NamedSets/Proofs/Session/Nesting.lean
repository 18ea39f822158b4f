import NamedSets.Proofs.Session.Soundness
import NamedSets.Proofs.Table.Nesting

namespace NamedSets.Session

open Table (testPacketWithin changePacketWithin)

variable {σ : Type} [ForeignStorage σ] {session : Session σ}

/-- The members of a list are distinct, no more than its size, and each a set that is not
listed last. A question on the packet path is passed on at most once: with any bound on the
depth from one on it has an answer, which is the one without a bound. -/
theorem lists_hold_plain_sets (reachable : session.Reachable Balanced) :
    (∀ id entry list, session.table.get? id = some entry → entry.storage = .list list →
      list.members.Nodup ∧ list.members.length ≤ list.size.toNat ∧
        ∀ member ∈ list.members, ∃ other, session.table.get? member = some other ∧
          other.type.features.listedLast = false) ∧
    (∀ slot query depth, 0 < depth →
      testPacketWithin query depth session.table slot =
        some (session.table.testPacket slot query)) ∧
    (∀ slot change query depth, 0 < depth →
      changePacketWithin change query depth session.table slot =
        some (session.table.changePacket slot change query)) := by
  have sound := reachable.sound.table
  refine ⟨?_, ?_, ?_⟩
  · intro id entry list found stored
    have distinct := (sound.valid found).distinct
    have plain := sound.plain_of_get found
    rw [stored] at distinct plain
    exact ⟨distinct, (sound.valid found).bounded _ stored, plain⟩
  · intro slot query depth positive
    exact Table.testPacketWithin_eq sound positive slot query
  · intro slot change query depth positive
    exact Table.changePacketWithin_eq sound positive slot change query

theorem lists_hold_plain_sets_shared :
    shared.Reachable Balanced ∧ ∃ entry list, shared.table.get? 1 = some entry ∧
      entry.storage = .list list ∧ list.members = [0] ∧
        list.members.length ≤ list.size.toNat ∧
          ∀ query, testPacketWithin query 1 shared.table 1 =
            some (shared.table.testPacket 1 query) := by
  obtain ⟨wellFormed, tests, -⟩ := lists_hold_plain_sets shared_reachable
  have listed : shared.table.members 1 = [0] := by decide +kernel
  obtain ⟨entry, found, -⟩ := Table.mem_members (by rw [listed]; exact List.mem_cons_self)
  rw [Table.members_of_get found] at listed
  cases stored : entry.storage with
  | list list =>
      obtain ⟨-, bounded, -⟩ := wellFormed 1 entry list found stored
      rw [stored] at listed
      exact ⟨shared_reachable, entry, list, found, stored, listed, bounded,
        fun query => tests 1 query 1 Nat.one_pos⟩
  | hash hash => simp [stored, Storage.members] at listed
  | foreign storage => exact storage.elim

end NamedSets.Session
