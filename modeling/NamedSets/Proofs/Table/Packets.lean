import NamedSets.Proofs.Table.Loops
import NamedSets.Proofs.Table.Slots
import NamedSets.Table.Packets

namespace NamedSets.Table

variable {σ : Type} [ForeignStorage σ] {table after : Table σ} {query : Query} {id depth : Nat}

theorem testPacketWithin_cases {found : Bool}
    (ran : testPacketWithin query depth table id = some (after, found)) :
    after = table ∨
    (∃ entry old new, table.get? id = some entry ∧ entry.storage = .foreign old ∧
      after = table.setStorage id (.foreign new)) ∨
    (∃ entry list fewer, table.get? id = some entry ∧ entry.storage = .list list ∧
      depth = fewer + 1 ∧
      anySlot (testPacketWithin query fewer) table list.members = some (after, found)) := by
  unfold testPacketWithin at ran
  cases occupied : table.get? id with
  | none =>
      simp only [occupied, Option.some.injEq, Prod.mk.injEq] at ran
      exact .inl ran.1.symm
  | some entry =>
      simp only [occupied] at ran
      split at ran
      · cases stored : entry.storage with
        | hash hash =>
            simp only [stored, Option.some.injEq, Prod.mk.injEq] at ran
            exact .inl ran.1.symm
        | list list =>
            cases depth with
            | zero => simp [stored] at ran
            | succ fewer =>
                simp only [stored] at ran
                exact .inr (.inr ⟨entry, list, fewer, rfl, stored, rfl, ran⟩)
        | foreign old =>
            simp only [stored] at ran
            refine .inr (.inl ⟨entry, old, ?_⟩)
            split at ran
            · rename_i tested _ _
              cases ran
              exact ⟨tested, rfl, stored, rfl⟩
            · rename_i tested fault _
              split at ran
              · cases ran
                exact ⟨_, rfl, stored, rfl⟩
              · cases ran
                exact ⟨tested, rfl, stored, rfl⟩
      · simp only [Option.some.injEq, Prod.mk.injEq] at ran
        exact .inl ran.1.symm

theorem changePacketWithin_cases {change : PacketChange} {result : Except Fault Unit}
    (ran : changePacketWithin change query depth table id = some (after, result)) :
    after = table ∨
    (∃ entry old new, table.get? id = some entry ∧ entry.storage = .hash old ∧
      old.changePacket change query = .ok new ∧ after = table.setStorage id (.hash new)) ∨
    (∃ entry old new, table.get? id = some entry ∧ entry.storage = .foreign old ∧
      after = table.setStorage id (.foreign new)) ∨
    (∃ entry list fewer, table.get? id = some entry ∧ entry.storage = .list list ∧
      depth = fewer + 1 ∧
      firstSlot (changePacketWithin change query fewer) table list.members =
        some (after, result)) := by
  unfold changePacketWithin at ran
  cases occupied : table.get? id with
  | none =>
      simp only [occupied, Option.some.injEq, Prod.mk.injEq] at ran
      exact .inl ran.1.symm
  | some entry =>
      simp only [occupied] at ran
      split at ran
      · cases stored : entry.storage with
        | hash old =>
            simp only [stored] at ran
            cases outcome : old.changePacket change query with
            | ok new =>
                simp only [outcome, Option.some.injEq, Prod.mk.injEq] at ran
                exact .inr (.inl ⟨entry, old, new, rfl, stored, outcome, ran.1.symm⟩)
            | error fault =>
                simp only [outcome, Option.some.injEq, Prod.mk.injEq] at ran
                exact .inl ran.1.symm
        | list list =>
            cases depth with
            | zero => simp [stored] at ran
            | succ fewer =>
                simp only [stored] at ran
                exact .inr (.inr (.inr ⟨entry, list, fewer, rfl, stored, rfl, ran⟩))
        | foreign old =>
            simp only [stored, Option.some.injEq, Prod.mk.injEq] at ran
            exact .inr (.inr (.inl ⟨entry, old, _, rfl, stored, ran.1.symm⟩))
      · simp only [Option.some.injEq, Prod.mk.injEq] at ran
        exact .inl ran.1.symm

/-- A test that has an answer at its bound on the depth leaves the table of that answer. -/
theorem testPacket_preserves (kept : Table σ → Prop) (before : kept table)
    (step : ∀ after found, testPacketWithin query table.capacity table id = some (after, found) →
      kept after) : kept (table.testPacket id query).1 := by
  unfold testPacket
  cases ran : testPacketWithin query table.capacity table id with
  | none => exact before
  | some outcome => exact step outcome.1 outcome.2 ran

theorem changePacket_preserves (kept : Table σ → Prop) {change : PacketChange}
    (before : kept table)
    (step : ∀ after result,
      changePacketWithin change query table.capacity table id = some (after, result) →
      kept after) : kept (table.changePacket id change query).1 := by
  unfold changePacket
  cases ran : changePacketWithin change query table.capacity table id with
  | none => exact before
  | some outcome => exact step outcome.1 outcome.2 ran

end NamedSets.Table
