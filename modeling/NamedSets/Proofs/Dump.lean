import NamedSets.Dump
import NamedSets.Proofs.Table.Balance
import NamedSets.Proofs.Table.Stability

namespace NamedSets.Dump

open Table (Edits SameLabels)

variable {σ : Type} {dump found : Dump} {table after : Table σ} {entry : Entry σ}
  {outside : List Nat} {kind : PacketChange} {closed : Prop}

def heldSlot? (dump : Dump) : Option Nat := dump.cursor.map fun _ => dump.slot

def Mode.Visits (mode : Mode) (listedLast : Bool) : Prop :=
  (mode = .all → listedLast = false) ∧ (mode = .last → listedLast = true)

/-- A dump that is in the middle of a set stands at a set that its pass visits. -/
def Placed (dump : Dump) (table : Table σ) : Prop :=
  dump.cursor.isSome → ∃ entry, table.get? dump.slot = some entry ∧
    dump.mode.Visits entry.type.features.listedLast

theorem Placed.of_cursor_eq_none (idle : dump.cursor = none) : dump.Placed table := by
  simp [Placed, idle]

/-- A dump stays placed as long as the set that it holds is kept. -/
theorem Placed.of_keeps (placed : dump.Placed table) (keeps : table.Keeps after)
    (held : ∀ entry, table.get? dump.slot = some entry → dump.cursor.isSome →
      entry.references ≠ 0) : dump.Placed after := by
  intro started
  obtain ⟨entry, there, visits⟩ := placed started
  obtain ⟨later, present, -, features, -⟩ :=
    keeps dump.slot entry there (held entry there started)
  rw [← features] at visits
  exact ⟨later, present, visits⟩

theorem Placed.of_sameLabels (placed : dump.Placed table) (same : SameLabels table after) :
    dump.Placed after := by
  intro started
  obtain ⟨entry, there, visits⟩ := placed started
  obtain ⟨later, present, -, sameType⟩ := same.get there
  rw [← sameType] at visits
  exact ⟨later, present, visits⟩

/-! ## Where the next message is about -/

theorem nextSlot_some {listedLast : Bool} {start slot : Nat}
    (next : nextSlot table listedLast start = some slot) :
    ∃ entry, table.get? slot = some entry ∧ entry.type.features.listedLast = listedLast := by
  have kind := List.find?_some next
  cases there : table.get? slot with
  | none => simp [there] at kind
  | some entry => exact ⟨entry, rfl, by simpa [there] using kind⟩

theorem nextSlot_self {listedLast : Bool} {slot : Nat} (there : table.get? slot = some entry)
    (kind : entry.type.features.listedLast = listedLast) :
    nextSlot table listedLast slot = some slot := by
  have inside := Table.lt_capacity_of_get there
  obtain ⟨rest, left⟩ : ∃ rest, table.capacity - slot = rest + 1 :=
    ⟨table.capacity - slot - 1, by omega⟩
  rw [nextSlot, left, List.range'_succ, List.find?_cons_of_pos]
  simp [there, kind]

theorem seek_ok {reached : Option (Entry σ)} (sought : dump.seek table = .ok (found, reached)) :
    found.cursor = dump.cursor ∧ table.get? found.slot = reached ∧
      ∀ entry, reached = some entry → found.mode.Visits entry.type.features.listedLast := by
  have lastPass {start : Nat} : ∀ entry,
      table.get? ((nextSlot table true start).getD table.capacity) = some entry →
        entry.type.features.listedLast = true := by
    intro entry there
    cases next : nextSlot table true start with
    | none =>
        simp only [next, Option.getD_none] at there
        exact absurd (Table.lt_capacity_of_get there) (Nat.lt_irrefl _)
    | some slot =>
        simp only [next, Option.getD_some] at there
        obtain ⟨other, here, kind⟩ := nextSlot_some next
        cases here.symm.trans there
        exact kind
  cases mode : dump.mode with
  | one =>
      simp only [seek, mode] at sought
      split at sought
      · rename_i ended
        cases sought
        exact ⟨rfl, Table.get_eq_none_of_capacity_le ended, by simp⟩
      · split at sought
        · rename_i present
          cases sought
          exact ⟨rfl, present, by simp [Mode.Visits, mode]⟩
        · contradiction
  | all =>
      simp only [seek, mode] at sought
      split at sought
      · rename_i slot next
        cases sought
        obtain ⟨entry, there, kind⟩ := nextSlot_some next
        refine ⟨rfl, rfl, fun other present => ?_⟩
        cases there.symm.trans present
        exact ⟨fun _ => kind, by simp⟩
      · cases sought
        exact ⟨rfl, rfl, fun entry there => ⟨by simp, fun _ => lastPass entry there⟩⟩
  | last =>
      simp only [seek, mode] at sought
      cases sought
      exact ⟨rfl, rfl, fun entry there => ⟨by simp, fun _ => lastPass entry there⟩⟩

theorem seek_one (mode : dump.mode = .one) (there : table.get? dump.slot = some entry) :
    dump.seek table = .ok (dump, some entry) := by
  have inside := Nat.not_le.mpr (Table.lt_capacity_of_get there)
  simp only [Dump.seek, mode, if_neg inside, there]

/-- The next message of a dump in progress is about the set that it stands at. -/
theorem Placed.seek (placed : dump.Placed table) (started : dump.cursor.isSome) :
    ∃ entry, table.get? dump.slot = some entry ∧
      dump.seek table = .ok (dump, some entry) := by
  obtain ⟨entry, there, visits⟩ := placed started
  refine ⟨entry, there, ?_⟩
  obtain ⟨mode, slot, cursor, sequence, sender, finished⟩ := dump
  cases mode with
  | one => exact seek_one rfl there
  | all => simp only [Dump.seek, nextSlot_self there (visits.1 rfl), there]
  | last => simp only [Dump.seek, nextSlot_self there (visits.2 rfl), Option.getD_some, there]

theorem Placed.idle (placed : dump.Placed table)
    (missed : ∀ entry, dump.seek table ≠ .ok (dump, some entry)) : dump.cursor = none := by
  cases started : dump.cursor with
  | none => rfl
  | some cursor =>
      obtain ⟨entry, -, sought⟩ := placed.seek (by simp [started])
      exact absurd sought (missed entry)

/-! ## The reference to the set that is listed -/

/-- The table with the reference that a message about the set at hand needs. -/
def holding (dump : Dump) (table : Table σ) : Table σ :=
  match dump.cursor with
  | none => table.hold dump.slot
  | some _ => table

theorem holding_idle (idle : dump.cursor = none) : dump.holding table = table.hold dump.slot := by
  simp only [holding, idle]

theorem holding_started (started : dump.cursor.isSome) : dump.holding table = table := by
  obtain ⟨cursor, same⟩ := Option.isSome_iff_exists.mp started
  simp only [holding, same]

theorem edits_holding (dump : Dump) (table : Table σ) :
    Edits kind table (dump.holding table) := by
  unfold holding
  split
  · exact .hold table dump.slot
  · exact .refl table

theorem sameLabels_holding (dump : Dump) (table : Table σ) :
    SameLabels table (dump.holding table) :=
  .of_edits (edits_holding dump table : Edits .add table _)

/-- After a message the dump goes on with the set, whose reference it holds, or it has given
the reference back. -/
theorem advance_cases [ForeignStorage σ] (dump : Dump) (table : Table σ) (entry : Entry σ)
    (limit : Nat) :
    (∃ cursor, (dump.advance table entry limit).1 = dump.holding table ∧
      (dump.advance table entry limit).2.1 = { dump with cursor := some cursor }) ∨
    ((dump.advance table entry limit).1 = (dump.holding table).release dump.slot ∧
      (dump.advance table entry limit).2.1.cursor = none) := by
  cases started : dump.cursor with
  | none =>
      simp only [advance, started, holding, Option.isNone_none, if_true]
      split
      · exact .inr ⟨rfl, rfl⟩
      · exact .inr ⟨rfl, rfl⟩
      · split
        · exact .inr ⟨rfl, rfl⟩
        · exact .inl ⟨_, rfl, rfl⟩
  | some start =>
      simp only [advance, started, holding, Option.isNone_some]
      split
      · exact .inr ⟨rfl, rfl⟩
      · exact .inr ⟨rfl, rfl⟩
      · split
        · exact .inr ⟨rfl, rfl⟩
        · exact .inl ⟨_, rfl, rfl⟩

theorem release_cases (dump : Dump) (table : Table σ) :
    (dump.cursor = none ∧ dump.release table = (table, dump)) ∨
    (dump.cursor.isSome ∧
      dump.release table = (table.release dump.slot, { dump with cursor := none })) := by
  cases started : dump.cursor with
  | none => exact .inl ⟨rfl, by simp only [release, started]⟩
  | some start => exact .inr ⟨rfl, by simp only [release, started]⟩

theorem edits_release (dump : Dump) (table : Table σ) :
    Edits kind table (dump.release table).1 := by
  obtain ⟨-, released⟩ | ⟨-, released⟩ := dump.release_cases table
  · rw [released]
    exact .refl table
  · rw [released]
    exact .release table dump.slot

theorem edits_step [ForeignStorage σ] (dump : Dump) (table : Table σ) (limit : Nat) :
    Edits kind table (dump.step table limit).1 := by
  unfold step
  split
  · exact .refl table
  · split
    · exact edits_release dump table
    · rename_i found entry sought
      obtain ⟨cursor, went, -⟩ | ⟨left, -⟩ := found.advance_cases table entry limit
      · rw [went]
        exact edits_holding found table
      · rw [left]
        exact (edits_holding found table).trans (.release _ found.slot)
    · exact .refl table

@[simp] theorem storage_holding (dump : Dump) (table : Table σ) (slot : Nat) :
    (dump.holding table).storage? slot = table.storage? slot := by
  unfold holding
  split
  · exact Table.storage_hold table dump.slot slot
  · rfl

/-- A step leaves the contents of all sets as they are. -/
theorem storage_step [ForeignStorage σ] (dump : Dump) (table : Table σ) (limit slot : Nat) :
    (dump.step table limit).1.storage? slot = table.storage? slot := by
  have released (dump : Dump) : (dump.release table).1.storage? slot = table.storage? slot := by
    obtain ⟨-, released⟩ | ⟨-, released⟩ := dump.release_cases table <;> simp [released]
  unfold step
  split
  · rfl
  · split
    · exact released dump
    · rename_i found entry sought
      obtain ⟨cursor, went, -⟩ | ⟨left, -⟩ := found.advance_cases table entry limit
      · simp [went]
      · simp [left]
    · rfl

theorem release_sound (sound : table.Sound (dump.heldSlot?.toList ++ outside) closed) :
    (dump.release table).1.Sound ((dump.release table).2.heldSlot?.toList ++ outside) closed ∧
      (dump.release table).2.Placed (dump.release table).1 := by
  obtain ⟨idle, released⟩ | ⟨started, released⟩ := dump.release_cases table
  · rw [released]
    exact ⟨sound, .of_cursor_eq_none idle⟩
  · rw [released]
    obtain ⟨cursor, started⟩ := Option.isSome_iff_exists.mp started
    simp only [heldSlot?, started] at sound
    exact ⟨sound.release, .of_cursor_eq_none rfl⟩

theorem holding_sound (sound : table.Sound (dump.heldSlot?.toList ++ outside) closed)
    (room : table.Room) (there : table.get? dump.slot = some entry) :
    (dump.holding table).Sound (dump.slot :: outside) closed := by
  cases started : dump.cursor with
  | none =>
      simp only [heldSlot?, started] at sound
      rw [holding_idle started]
      exact sound.hold there (room dump.slot entry there)
  | some cursor =>
      simp only [heldSlot?, started] at sound
      rw [holding_started (by simp [started])]
      exact sound

/-- A message takes or gives back exactly the reference by which the dump differs. -/
theorem advance_sound [ForeignStorage σ] (limit : Nat)
    (sound : table.Sound (dump.heldSlot?.toList ++ outside) closed) (room : table.Room)
    (there : table.get? dump.slot = some entry)
    (visits : dump.mode.Visits entry.type.features.listedLast) :
    (dump.advance table entry limit).1.Sound
        ((dump.advance table entry limit).2.1.heldSlot?.toList ++ outside) closed ∧
      (dump.advance table entry limit).2.1.Placed (dump.advance table entry limit).1 := by
  have held := holding_sound sound room there
  obtain ⟨cursor, went, dumped⟩ | ⟨left, dumped⟩ := dump.advance_cases table entry limit
  · rw [went, dumped]
    have placed : Placed { dump with cursor := some cursor } table :=
      fun _ => ⟨entry, there, visits⟩
    exact ⟨held, placed.of_sameLabels (sameLabels_holding dump table)⟩
  · rw [left]
    refine ⟨?_, .of_cursor_eq_none dumped⟩
    rw [heldSlot?, dumped]
    exact held.release

theorem step_sound [ForeignStorage σ] (limit : Nat)
    (sound : table.Sound (dump.heldSlot?.toList ++ outside) closed) (placed : dump.Placed table)
    (room : table.Room) :
    (dump.step table limit).1.Sound
        ((dump.step table limit).2.1.heldSlot?.toList ++ outside) closed ∧
      (dump.step table limit).2.1.Placed (dump.step table limit).1 := by
  by_cases ended : dump.finished
  · simp only [step, if_pos ended]
    exact ⟨sound, placed⟩
  · simp only [step, if_neg ended]
    cases sought : dump.seek table with
    | error fault =>
        have idle : dump.cursor = none := placed.idle (by simp [sought])
        simp only [abort, release, idle]
        exact ⟨by simpa [heldSlot?, idle] using sound, .of_cursor_eq_none rfl⟩
    | ok outcome =>
        obtain ⟨found, reached⟩ := outcome
        obtain ⟨sameCursor, there, visits⟩ := seek_ok sought
        have stays : dump.cursor.isSome → found = dump := fun started => by
          obtain ⟨entry, -, same⟩ := placed.seek started
          rw [sought] at same
          cases same
          rfl
        have sameSlot : found.heldSlot? = dump.heldSlot? := by
          cases started : dump.cursor with
          | none => simp [heldSlot?, sameCursor, started]
          | some cursor => rw [stays (by simp [started])]
        cases reached with
        | some entry =>
            rw [← sameSlot] at sound
            exact advance_sound limit sound room there (visits entry rfl)
        | none =>
            have idle : dump.cursor = none := placed.idle (by simp [sought])
            rw [← sameSlot] at sound
            exact ⟨sound, .of_cursor_eq_none (sameCursor.trans idle)⟩

end NamedSets.Dump
