import NamedSets.Proofs.Table.Balance
import NamedSets.Proofs.Table.Labels

namespace NamedSets.Table

variable {σ : Type} {table : Table σ} {outside : List Nat} {id : Nat} {entry : Entry σ}

theorem Plain.of_sameLabels {after : Table σ} (plain : table.Plain id)
    (same : SameLabels table after) : after.Plain id := by
  obtain ⟨entry, there, ordinary⟩ := plain
  obtain ⟨later, present, -, sameType⟩ := same.get there
  exact ⟨later, present, by rw [sameType, ordinary]⟩

/-- A set of a built-in type that is not listed last stores addresses. -/
theorem Sound.hash_of_plain (sound : table.Sound outside) (plain : table.Plain id) :
    ∃ entry hash, table.get? id = some entry ∧ entry.storage = .hash hash := by
  obtain ⟨entry, there, ordinary⟩ := plain
  have builtin := (sound.valid there).builtin
  cases stored : entry.storage with
  | hash hash => exact ⟨entry, hash, there, stored⟩
  | list list =>
      simp only [Entry.Builtin, stored] at builtin
      simp [builtin, SetType.setList] at ordinary
  | foreign storage => exact absurd stored (sound.not_foreign there)

variable [ForeignStorage σ]

/-! ## Tests -/

theorem testPacketWithin_vacant (query : Query) (depth : Nat) (vacant : table.get? id = none) :
    testPacketWithin query depth table id = some (table, false) := by
  unfold testPacketWithin
  simp only [vacant]

theorem testPacketWithin_hash (query : Query) {hash : AddressHash}
    (there : table.get? id = some entry)
    (stored : entry.storage = .hash hash) :
    ∃ found, ∀ depth, testPacketWithin query depth table id = some (table, found) := by
  cases accepted : entry.accepts query with
  | true =>
      refine ⟨(hash.testPacket query).toOption.getD false, fun depth => ?_⟩
      unfold testPacketWithin
      simp only [there, accepted, if_true, stored]
  | false =>
      refine ⟨false, fun depth => ?_⟩
      unfold testPacketWithin
      simp [there, accepted]

theorem anySlot_members (query : Query) (sound : table.Sound outside) {ids : List Nat}
    (plain : ∀ id ∈ ids, table.Plain id) :
    ∃ found, ∀ depth, anySlot (testPacketWithin query depth) table ids = some (table, found) := by
  induction ids with
  | nil => exact ⟨false, fun _ => rfl⟩
  | cons id rest ih =>
      obtain ⟨entry, hash, there, stored⟩ := sound.hash_of_plain (plain id List.mem_cons_self)
      obtain ⟨found, first⟩ := testPacketWithin_hash query there stored
      cases found with
      | true => exact ⟨true, fun depth => by simp only [anySlot, first]⟩
      | false =>
          obtain ⟨found, others⟩ := ih fun id later => plain id (List.mem_cons_of_mem _ later)
          exact ⟨found, fun depth => by simp only [anySlot, first, others]⟩

/-- A test has the same answer whatever the bound on the depth, from one on. -/
theorem testPacket_answers (sound : table.Sound outside) (id : Nat) (query : Query) :
    ∃ outcome, ∀ depth, testPacketWithin query (depth + 1) table id = some outcome := by
  cases there : table.get? id with
  | none => exact ⟨(table, false), fun depth => testPacketWithin_vacant query (depth + 1) there⟩
  | some entry =>
      cases stored : entry.storage with
      | hash hash =>
          obtain ⟨found, answered⟩ := testPacketWithin_hash query there stored
          exact ⟨(table, found), fun depth => answered (depth + 1)⟩
      | list list =>
          have plain := sound.plain_of_get there
          rw [stored] at plain
          obtain ⟨found, answered⟩ := anySlot_members query sound plain
          cases accepted : entry.accepts query with
          | true =>
              refine ⟨(table, found), fun depth => ?_⟩
              unfold testPacketWithin
              simp only [there, accepted, if_true, stored]
              exact answered depth
          | false =>
              refine ⟨(table, false), fun depth => ?_⟩
              unfold testPacketWithin
              simp [there, accepted]
      | foreign storage => exact absurd stored (sound.not_foreign there)

theorem testPacketWithin_eq {depth : Nat} (sound : table.Sound outside) (positive : 0 < depth)
    (id : Nat) (query : Query) :
    testPacketWithin query depth table id = some (table.testPacket id query) := by
  obtain ⟨fewer, rfl⟩ := Nat.exists_eq_succ_of_ne_zero (Nat.ne_of_gt positive)
  obtain ⟨outcome, answered⟩ := testPacket_answers sound id query
  cases slots : table.capacity with
  | zero =>
      have vacant : table.get? id = none := get_eq_none_of_capacity_le (by omega)
      rw [testPacket, testPacketWithin_vacant query _ vacant,
        testPacketWithin_vacant query _ vacant, Option.getD_some]
  | succ bound => rw [testPacket, slots, answered, answered, Option.getD_some]

/-! ## Changes -/

theorem changePacketWithin_vacant (change : PacketChange) (query : Query) (depth : Nat)
    (vacant : table.get? id = none) :
    changePacketWithin change query depth table id = some (table, .error .noSuchSet) := by
  unfold changePacketWithin
  simp only [vacant]

theorem changePacketWithin_hash (change : PacketChange) (query : Query) {hash : AddressHash}
    (there : table.get? id = some entry)
    (stored : entry.storage = .hash hash) :
    ∃ outcome, ∀ depth, changePacketWithin change query depth table id = some outcome := by
  cases accepted : entry.accepts query with
  | true =>
      cases changed : hash.changePacket change query with
      | ok new =>
          refine ⟨(table.setStorage id (.hash new), .ok ()), fun depth => ?_⟩
          unfold changePacketWithin
          simp only [there, accepted, if_true, stored, changed]
      | error fault =>
          refine ⟨(table, .error fault), fun depth => ?_⟩
          unfold changePacketWithin
          simp only [there, accepted, if_true, stored, changed]
  | false =>
      refine ⟨(table, .ok ()), fun depth => ?_⟩
      unfold changePacketWithin
      simp [there, accepted]

theorem firstSlot_members (change : PacketChange) (query : Query)
    (sound : table.Sound outside) {ids : List Nat}
    (plain : ∀ id ∈ ids, table.Plain id) :
    ∃ outcome, ∀ depth,
      firstSlot (changePacketWithin change query depth) table ids = some outcome := by
  induction ids generalizing table with
  | nil => exact ⟨(table, .error .noMemberAccepts), fun _ => rfl⟩
  | cons id rest ih =>
      obtain ⟨entry, hash, there, stored⟩ := sound.hash_of_plain (plain id List.mem_cons_self)
      obtain ⟨⟨changed, result⟩, first⟩ :=
        changePacketWithin_hash change query there stored
      cases result with
      | ok done => exact ⟨(changed, .ok ()), fun depth => by simp only [firstSlot, first]⟩
      | error fault =>
          have same := SameLabels.of_edits (edits_changePacketWithin (first 0))
          obtain ⟨outcome, others⟩ := ih (sound.changePacketWithin (first 0)) fun id later =>
            (plain id (List.mem_cons_of_mem _ later)).of_sameLabels same
          exact ⟨outcome, fun depth => by simp only [firstSlot, first, others]⟩

/-- A change has the same outcome whatever the bound on the depth, from one on. -/
theorem changePacket_answers (sound : table.Sound outside) (id : Nat)
    (change : PacketChange) (query : Query) :
    ∃ outcome, ∀ depth, changePacketWithin change query (depth + 1) table id = some outcome := by
  cases there : table.get? id with
  | none =>
      exact ⟨(table, .error .noSuchSet), fun depth =>
        changePacketWithin_vacant change query (depth + 1) there⟩
  | some entry =>
      cases stored : entry.storage with
      | hash hash =>
          obtain ⟨outcome, answered⟩ :=
            changePacketWithin_hash change query there stored
          exact ⟨outcome, fun depth => answered (depth + 1)⟩
      | list list =>
          have plain := sound.plain_of_get there
          rw [stored] at plain
          obtain ⟨outcome, answered⟩ :=
            firstSlot_members change query sound plain
          cases accepted : entry.accepts query with
          | true =>
              refine ⟨outcome, fun depth => ?_⟩
              unfold changePacketWithin
              simp only [there, accepted, if_true, stored]
              exact answered depth
          | false =>
              refine ⟨(table, .ok ()), fun depth => ?_⟩
              unfold changePacketWithin
              simp [there, accepted]
      | foreign storage => exact absurd stored (sound.not_foreign there)

theorem changePacketWithin_eq {depth : Nat} (sound : table.Sound outside) (positive : 0 < depth)
    (id : Nat) (change : PacketChange) (query : Query) :
    changePacketWithin change query depth table id = some (table.changePacket id change query) := by
  obtain ⟨fewer, rfl⟩ := Nat.exists_eq_succ_of_ne_zero (Nat.ne_of_gt positive)
  obtain ⟨outcome, answered⟩ := changePacket_answers sound id change query
  cases slots : table.capacity with
  | zero =>
      have vacant : table.get? id = none := get_eq_none_of_capacity_le (by omega)
      rw [changePacket, changePacketWithin_vacant change query _ vacant,
        changePacketWithin_vacant change query _ vacant, Option.getD_some]
  | succ bound => rw [changePacket, slots, answered, answered, Option.getD_some]

end NamedSets.Table
