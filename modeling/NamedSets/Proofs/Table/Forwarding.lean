import NamedSets.Proofs.Table.Courses

/-!
# Where a packet ends up

A change that is asked of a list of sets is passed on to its members. The first member that does
not refuse it decides: it takes the packet, or it is not meant for the query and leaves the packet
alone. Storages of the built-in types are as before when they refuse.
-/

namespace NamedSets.Table

variable {σ : Type} {table after : Table σ} {query : Query} {change : PacketChange}
  {id slot depth : Nat} {entry : Entry σ} {fault : Fault} {outcome : Table σ × Except Fault Unit}

/-! ## The first of several slots -/

theorem firstSlot_cases {attempt : Table σ → Nat → Option (Table σ × Except Fault Unit)}
    {ids : List Nat}
    (refusing : ∀ id after fault, attempt table id = some (after, .error fault) → after = table)
    (ran : firstSlot attempt table ids = some outcome) :
    (∃ before member rest after, ids = before ++ member :: rest ∧
      (∀ earlier ∈ before, ∃ fault, attempt table earlier = some (table, .error fault)) ∧
      attempt table member = some (after, .ok ()) ∧ outcome = (after, .ok ())) ∨
    (∀ member ∈ ids, ∃ fault, attempt table member = some (table, .error fault)) ∧
      outcome = (table, .error .noMemberAccepts) := by
  induction ids with
  | nil =>
      cases ran
      exact .inr ⟨nofun, rfl⟩
  | cons id rest ih =>
      cases first : attempt table id with
      | none => simp [firstSlot, first] at ran
      | some answer =>
          obtain ⟨changed, ok | fault⟩ := answer
          · obtain rfl := refusing id changed _ first
            simp only [firstSlot, first] at ran
            obtain ⟨before, member, others, after, rfl, refused, decides, done⟩ | ⟨refused, done⟩ :=
              ih ran
            · exact .inl ⟨id :: before, member, others, after, rfl,
                List.forall_mem_cons.mpr ⟨⟨_, first⟩, refused⟩, decides, done⟩
            · exact .inr ⟨List.forall_mem_cons.mpr ⟨⟨_, first⟩, refused⟩, done⟩
          · simp only [firstSlot, first, Option.some.injEq] at ran
            exact .inl ⟨[], id, rest, changed, rfl, nofun, first, ran.symm⟩

theorem firstSlot_mono {attempt further : Table σ → Nat → Option (Table σ × Except Fault Unit)}
    {ids : List Nat}
    (covers : ∀ table id outcome, attempt table id = some outcome →
      further table id = some outcome)
    (ran : firstSlot attempt table ids = some outcome) :
    firstSlot further table ids = some outcome := by
  induction ids generalizing table with
  | nil => exact ran
  | cons id rest ih =>
      cases first : attempt table id with
      | none => simp [firstSlot, first] at ran
      | some answer =>
          obtain ⟨changed, result⟩ := answer
          have same := covers table id _ first
          cases result with
          | ok done => simpa only [firstSlot, first, same] using ran
          | error fault =>
              simp only [firstSlot, first, same] at ran ⊢
              exact ih ran

/-! ## Depth -/

def PassesOn (table : Table σ) (query : Query) (id : Nat) (list : SetList) : Prop :=
  ∃ entry, table.get? id = some entry ∧ entry.accepts query ∧ entry.storage = .list list

variable [ForeignStorage σ] {list : SetList}

theorem changePacketWithin_list (passes : table.PassesOn query id list) (depth : Nat) :
    changePacketWithin change query (depth + 1) table id =
      firstSlot (changePacketWithin change query depth) table list.members := by
  obtain ⟨entry, found, admitted, stored⟩ := passes
  rw [changePacketWithin]
  simp only [found, admitted, if_true, stored]

/-- What is not passed on is answered whatever the bound on the depth. -/
theorem changePacketWithin_alone (alone : ∀ list, ¬ table.PassesOn query id list)
    (depth further : Nat) :
    changePacketWithin change query depth table id =
      changePacketWithin change query further table id := by
  unfold changePacketWithin
  cases found : table.get? id with
  | none => rfl
  | some entry =>
      cases admitted : entry.accepts query with
      | false => simp [admitted]
      | true =>
          cases stored : entry.storage with
          | list list => exact absurd ⟨entry, found, admitted, stored⟩ (alone list)
          | _ => simp only [stored]

/-- An answer within a bound on the depth is the one within any greater bound. -/
theorem changePacketWithin_succ
    (ran : changePacketWithin change query depth table id = some outcome) :
    changePacketWithin change query (depth + 1) table id = some outcome := by
  induction depth generalizing table id outcome with
  | zero =>
      rw [← ran]
      refine changePacketWithin_alone (fun list passes => ?_) 1 0
      obtain ⟨entry, found, admitted, stored⟩ := passes
      rw [changePacketWithin] at ran
      simp [found, admitted, stored] at ran
  | succ depth ih =>
      by_cases passes : ∃ list, table.PassesOn query id list
      · obtain ⟨list, passes⟩ := passes
        rw [changePacketWithin_list passes] at ran ⊢
        exact firstSlot_mono (fun _ _ _ => ih) ran
      · rw [← ran]
        exact changePacketWithin_alone (not_exists.mp passes) _ _

theorem changePacket_of_within
    (ran : changePacketWithin change query depth table id = some outcome)
    (bound : depth ≤ table.capacity) : table.changePacket id change query = outcome := by
  have settled (further : Nat) :
      changePacketWithin change query (depth + further) table id = some outcome := by
    induction further with
    | zero => exact ran
    | succ further ih => exact changePacketWithin_succ ih
  rw [changePacket, ← Nat.add_sub_of_le bound, settled, Option.getD_some]

/-! ## Sets that decide -/

/-- The set in a slot is not meant for the query. -/
def Spares (table : Table σ) (query : Query) (id : Nat) : Prop :=
  ∃ entry, table.get? id = some entry ∧ entry.accepts query = false

inductive Takes (table : Table σ) (change : PacketChange) (query : Query) (id : Nat) :
    Table σ → Prop
  | hash {entry : Entry σ} {old new : AddressHash} (found : table.get? id = some entry)
      (admitted : entry.accepts query) (stored : entry.storage = .hash old)
      (done : old.changePacket change query = .ok new) :
      Takes table change query id (table.setStorage id (.hash new))
  | list {list : SetList} {after : Table σ} (passes : table.PassesOn query id list)
      (done : table.changePacket id change query = (after, .ok ())) :
      Takes table change query id after

/-- How a set answers a change that is asked of its slot: it takes the packet, spares it, or refuses
it and is as before. -/
inductive Answers (table : Table σ) (change : PacketChange) (query : Query) (id : Nat) :
    Table σ × Except Fault Unit → Prop
  | takes {after : Table σ} (takes : table.Takes change query id after) :
      Answers table change query id (after, .ok ())
  | spares (spares : table.Spares query id) : Answers table change query id (table, .ok ())
  | refuses (fault : Fault) : Answers table change query id (table, .error fault)

theorem answers_alone (noForeign : table.NoForeign) (alone : ∀ list, ¬ table.PassesOn query id list)
    (ran : changePacketWithin change query depth table id = some outcome) :
    table.Answers change query id outcome := by
  unfold changePacketWithin at ran
  cases found : table.get? id with
  | none =>
      simp only [found, Option.some.injEq] at ran
      exact ran ▸ .refuses _
  | some entry =>
      simp only [found] at ran
      cases admitted : entry.accepts query with
      | false =>
          simp only [admitted, Bool.false_eq_true, if_false, Option.some.injEq] at ran
          exact ran ▸ .spares ⟨entry, found, admitted⟩
      | true =>
          simp only [admitted, if_true] at ran
          cases stored : entry.storage with
          | list list => exact absurd ⟨entry, found, admitted, stored⟩ (alone list)
          | foreign inner => exact absurd stored (noForeign id entry found inner)
          | hash old =>
              simp only [stored] at ran
              cases done : old.changePacket change query with
              | ok new =>
                  simp only [done, Option.some.injEq] at ran
                  exact ran ▸ .takes (.hash found admitted stored done)
              | error fault =>
                  simp only [done, Option.some.injEq] at ran
                  exact ran ▸ .refuses fault

theorem answers_within (noForeign : table.NoForeign)
    (ran : changePacketWithin change query depth table id = some outcome)
    (bound : depth ≤ table.capacity) : table.Answers change query id outcome := by
  induction depth generalizing id outcome with
  | zero =>
      refine answers_alone noForeign (fun list passes => ?_) ran
      obtain ⟨entry, found, admitted, stored⟩ := passes
      rw [changePacketWithin] at ran
      simp [found, admitted, stored] at ran
  | succ depth ih =>
      by_cases passes : ∃ list, table.PassesOn query id list
      · obtain ⟨list, passes⟩ := passes
        have answered := changePacket_of_within ran bound
        rw [changePacketWithin_list passes] at ran
        have refusing (member : Nat) (after : Table σ) (fault : Fault)
            (refused : changePacketWithin change query depth table member =
              some (after, .error fault)) : after = table := by
          cases ih refused (by omega)
          rfl
        obtain ⟨-, -, -, after, -, -, -, rfl⟩ | ⟨-, rfl⟩ := firstSlot_cases refusing ran
        · exact .takes (.list passes answered)
        · exact .refuses _
      · exact answers_alone noForeign (not_exists.mp passes) ran

/-! ## Lists of sets -/

theorem changePacket_spares (spares : table.Spares query id) :
    table.changePacket id change query = (table, .ok ()) := by
  obtain ⟨entry, found, refused⟩ := spares
  have ran : changePacketWithin change query 0 table id = some (table, .ok ()) := by
    unfold changePacketWithin
    simp [found, refused]
  exact changePacket_of_within ran (Nat.zero_le _)

theorem changePacket_takes (takes : table.Takes change query id after) :
    table.changePacket id change query = (after, .ok ()) := by
  cases takes with
  | list passes done => exact done
  | @hash entry old new found admitted stored done =>
      have ran : changePacketWithin change query 0 table id =
          some (table.setStorage id (.hash new), .ok ()) := by
        unfold changePacketWithin
        simp [found, admitted, stored, done]
      exact changePacket_of_within ran (Nat.zero_le _)

def Refuses (table : Table σ) (change : PacketChange) (query : Query) (id : Nat) : Prop :=
  ¬ table.Spares query id ∧ ∀ after, ¬ table.Takes change query id after

theorem refuses_of_error (refused : table.changePacket id change query = (after, .error fault)) :
    table.Refuses change query id := by
  refine ⟨fun spares => ?_, fun later takes => ?_⟩
  · rw [changePacket_spares spares] at refused
    cases refused
  · rw [changePacket_takes takes] at refused
    cases refused

/-- How a change that is asked of a list of sets ends: the first member that does not refuse it
takes the packet or spares it, or all members refuse. -/
inductive Forwards (table : Table σ) (change : PacketChange) (query : Query) (members : List Nat) :
    Table σ × Except Fault Unit → Prop
  | takes {before rest : List Nat} {member : Nat} {after : Table σ}
      (split : members = before ++ member :: rest)
      (refused : ∀ earlier ∈ before, table.Refuses change query earlier)
      (takes : table.Takes change query member after) :
      Forwards table change query members (after, .ok ())
  | spares {before rest : List Nat} {member : Nat} (split : members = before ++ member :: rest)
      (refused : ∀ earlier ∈ before, table.Refuses change query earlier)
      (spares : table.Spares query member) : Forwards table change query members (table, .ok ())
  | refuses (refused : ∀ member ∈ members, table.Refuses change query member) :
      Forwards table change query members (table, .error .noMemberAccepts)

theorem changePacket_forwards (noForeign : table.NoForeign) (passes : table.PassesOn query id list)
    (ends : (changePacketWithin change query table.capacity table id).isSome) :
    table.Forwards change query list.members (table.changePacket id change query) := by
  obtain ⟨outcome, ran⟩ := Option.isSome_iff_exists.mp ends
  rw [changePacket_of_within ran (Nat.le_refl _)]
  have inside : 0 < table.capacity := by
    obtain ⟨entry, found, -⟩ := passes
    exact Nat.zero_lt_of_lt (lt_capacity_of_get found)
  obtain ⟨depth, deeper⟩ := Nat.exists_eq_succ_of_ne_zero (Nat.ne_of_gt inside)
  rw [deeper, changePacketWithin_list passes] at ran
  have shallow : depth ≤ table.capacity := by omega
  have refuses {member : Nat} (refused : ∃ fault,
      changePacketWithin change query depth table member = some (table, .error fault)) :
      table.Refuses change query member := by
    obtain ⟨fault, refused⟩ := refused
    exact refuses_of_error (changePacket_of_within refused shallow)
  have refusing (member : Nat) (after : Table σ) (fault : Fault)
      (refused : changePacketWithin change query depth table member =
        some (after, .error fault)) : after = table := by
    cases answers_within noForeign refused shallow
    rfl
  obtain ⟨before, member, rest, after, split, refused, decides, rfl⟩ | ⟨refused, rfl⟩ :=
    firstSlot_cases refusing ran
  · have front (earlier : Nat) (among : earlier ∈ before) : table.Refuses change query earlier :=
      refuses (refused earlier among)
    cases answers_within noForeign decides shallow with
    | takes takes => exact .takes split front takes
    | spares spares => exact .spares split front spares
  · exact .refuses fun member among => refuses (refused member among)

theorem Forwards.ok_iff {members : List Nat}
    (forwards : table.Forwards change query members outcome) :
    outcome.2 = .ok () ↔ ∃ member ∈ members,
      table.Spares query member ∨ ∃ after, table.Takes change query member after := by
  cases forwards with
  | takes split refused takes =>
      exact iff_of_true rfl ⟨_, by simp [split], .inr ⟨_, takes⟩⟩
  | spares split refused spares => exact iff_of_true rfl ⟨_, by simp [split], .inl spares⟩
  | refuses refused =>
      refine iff_of_false nofun ?_
      rintro ⟨member, among, spares | ⟨after, takes⟩⟩
      · exact (refused member among).1 spares
      · exact (refused member among).2 after takes

end NamedSets.Table
