import NamedSets.Proofs.Session.Recreation
import NamedSets.Proofs.Table.Forwarding
import NamedSets.Proofs.Table.Nesting

namespace NamedSets.Session

open Table (changePacketWithin)

variable {σ : Type} [ForeignStorage σ] {session : Session σ} {operation : Operation σ}
  {id : Nat} {entry : Entry σ} {list : SetList} {query : Query}

/-! ## Storages from outside -/

theorem noForeign_after (noForeign : session.table.NoForeign)
    (builtin : session.engine.catalog.Builtin) : (session.after operation).table.NoForeign := by
  by_cases ordinary : operation.Ordinary
  · obtain ⟨kind, edits⟩ := session.after_edits ordinary
    exact noForeign.edits edits
  · cases operation with
    | request privileged request =>
        rw [table, engine_after_request]
        exact (session.engine.handle_change privileged request).noForeign builtin noForeign
    | create creation =>
        have change : session.engine.Change False [] (session.engine.create creation).1 :=
          session.engine.create_change creation
        exact change.noForeign builtin noForeign
    | destroy name => exact Table.Throughout.destroy noForeign name
    | destroyAll => exact Table.Throughout.destroyAll noForeign
    | rename name newName => exact Table.Throughout.rename noForeign name newName
    | swap name second => exact Table.Throughout.swap noForeign name second
    | _ => exact absurd trivial ordinary

/-- Without types from outside there are no storages from outside. -/
theorem Reachable.noForeign (reachable : session.Reachable fun _ operation => operation.Builtin) :
    session.table.NoForeign := by
  have kept : session.engine.catalog.Builtin ∧ session.table.NoForeign := by
    refine reachable.induction (fun session => session.engine.catalog.Builtin ∧
      session.table.NoForeign) ?_ ?_
    · exact fun settings loader => ⟨nofun, .empty settings.capacity⟩
    · rintro session operation ⟨known, noForeign⟩ builtin
      refine ⟨catalog_preserves Catalog.Builtin.durable (fun type _ same accepted => ?_) known,
        noForeign_after noForeign known⟩
      exact known.register (builtin type same) accepted
  exact kept.2

/-! ## The first member that does not refuse -/

/-- A packet that a rule adds to a list of sets, or deletes from it, goes to the first member that
takes it, unless a member in front is not meant for the query. If all members refuse, nothing
is changed. In a balanced use the question always comes to an end. -/
theorem packet_forwarded (change : PacketChange)
    (reachable : session.Reachable fun _ operation => operation.Builtin)
    (found : session.table.get? id = some entry) (stored : entry.storage = .list list)
    (admitted : entry.accepts query)
    (ends : session.Reachable Balanced ∨
      (changePacketWithin change query session.table.capacity session.table id).isSome) :
    session.table.Forwards change query list.members
        (session.table.changePacket id change query) ∧
      ((session.table.changePacket id change query).2 = .ok () ↔
        ∃ member ∈ list.members, session.table.Spares query member ∨
          ∃ after, session.table.Takes change query member after) ∧
      Fault.errno .noMemberAccepts = .invalid := by
  have inside : 0 < session.table.capacity := Nat.zero_lt_of_lt (Table.lt_capacity_of_get found)
  have answered :
      (changePacketWithin change query session.table.capacity session.table id).isSome := by
    obtain balanced | answered := ends
    · rw [Table.changePacketWithin_eq balanced.sound.table inside]
      rfl
    · exact answered
  have forwards : session.table.Forwards change query list.members
      (session.table.changePacket id change query) :=
    Table.changePacket_forwards reachable.noForeign ⟨entry, found, admitted, stored⟩ answered
  exact ⟨forwards, forwards.ok_iff, rfl⟩

def secondName : SetName where
  text := "v4"
  nonempty := by decide
  short := by decide
  noNul := by decide

/-- What is done to make a list of two sets, the first of which is not meant for packets of the
family of the second. -/
def familiesJoined : List (Operation Empty) :=
  let first : Engine.Creation :=
    { name := memberName, typeName := "hash:ip", family := .ipv6, revision := 0, data := []
      allowExisting := false }
  [.create first, creating secondName "hash:ip", creating listName "list:set",
    .addElement 2 [.name memberName], .addElement 2 [.name secondName]]

def twoFamilies : Session Empty := (fresh { maxSets := 4 } .builtin).run familiesJoined

def arriving : Query where
  packet :=
    { source := .v4 0x0a000001, destination := .v4 0x0a000001, sourcePort := 1024
      destinationPort := 80 }
  family := .ipv4
  dimension := 1
  sides := .ofBits 1

theorem twoFamilies_reachable : twoFamilies.Reachable Balanced := by
  have few : (fresh { maxSets := 4 } .builtin : Session Empty).AllBalanced familiesJoined :=
    .of_few (by simp [familiesJoined, creating, Operation.Direct]) (by decide +kernel)
  exact (Reachable.fresh Balanced { maxSets := 4 } .builtin).run few

/-- The list is in slot 2, has the two sets as its members and is meant for the packet. -/
theorem twoFamilies_list : ∃ entry list, twoFamilies.table.get? 2 = some entry ∧
    entry.storage = .list list ∧ list.members = [0, 1] ∧ entry.accepts arriving := by
  have listed : twoFamilies.table.members 2 = [0, 1] := by decide +kernel
  have meant : (twoFamilies.table.get? 2).any (·.accepts arriving) = true := by decide +kernel
  obtain ⟨entry, found, admitted⟩ := (Option.any_eq_true _ _).mp meant
  rw [Table.members_of_get found] at listed
  cases stored : entry.storage with
  | list list =>
      rw [stored] at listed
      exact ⟨entry, list, found, stored, listed, admitted⟩
  | hash hash => simp [stored, Storage.members] at listed
  | foreign inner => exact inner.elim

theorem packet_forwarded_twoFamilies :
    (twoFamilies.Reachable fun _ operation => operation.Builtin) ∧ twoFamilies.Reachable Balanced ∧
      ∃ entry list, twoFamilies.table.get? 2 = some entry ∧ entry.storage = .list list ∧
        list.members = [0, 1] ∧ entry.accepts arriving ∧
        twoFamilies.table.Forwards .add arriving [0, 1]
          (twoFamilies.table.changePacket 2 .add arriving) ∧
        ∃ member ∈ [0, 1], twoFamilies.table.Spares arriving member ∨
          ∃ after, twoFamilies.table.Takes .add arriving member after := by
  have balanced := twoFamilies_reachable
  have builtin : twoFamilies.Reachable fun _ operation => operation.Builtin :=
    balanced.mono fun _ _ balanced => balanced.builtin
  obtain ⟨entry, list, found, stored, members, admitted⟩ := twoFamilies_list
  have done : (twoFamilies.table.changePacket 2 .add arriving).2 = .ok () := by decide +kernel
  obtain ⟨forwards, ok_iff, -⟩ :=
    packet_forwarded .add builtin found stored admitted (.inl balanced)
  rw [members] at forwards ok_iff
  exact ⟨builtin, balanced, entry, list, found, stored, members, admitted, forwards,
    ok_iff.mp done⟩

theorem twoFamilies_spares : twoFamilies.table.Spares arriving 0 := by
  have other : (twoFamilies.table.get? 0).any (!·.accepts arriving) = true := by decide +kernel
  obtain ⟨entry, found, refused⟩ := (Option.any_eq_true _ _).mp other
  exact ⟨entry, found, by simpa using refused⟩

theorem twoFamilies_takes : ∃ taken, twoFamilies.table.Takes .add arriving 1 taken := by
  have meant : (twoFamilies.table.get? 1).any (·.accepts arriving) = true := by decide +kernel
  have done : (changePacketWithin .add arriving 0 twoFamilies.table 1).any (·.2 = .ok ()) = true := by
    decide +kernel
  obtain ⟨outcome, ran, ok⟩ := (Option.any_eq_true _ _).mp done
  have noForeign : twoFamilies.table.NoForeign := fun _ _ _ inner => inner.elim
  cases Table.answers_within noForeign ran (Nat.zero_le _) with
  | takes takes => exact ⟨_, takes⟩
  | spares spares =>
      obtain ⟨entry, found, refused⟩ := spares
      simp [found, refused] at meant
  | refuses fault => simp at ok

/-- The second member of the list would take the packet, and the first one is not meant for it.
The rule is told that all is well, and the packet is in neither of them. -/
theorem packet_lost :
    twoFamilies.Reachable Balanced ∧
      (∃ entry list, twoFamilies.table.get? 2 = some entry ∧ entry.storage = .list list ∧
        list.members = [0, 1] ∧ entry.accepts arriving) ∧
      twoFamilies.table.Spares arriving 0 ∧
      ∃ taken, twoFamilies.table.Takes .add arriving 1 taken ∧
        (taken.testPacket 1 arriving).2 = true ∧
        (twoFamilies.table.changePacket 2 .add arriving).2 = .ok () ∧
        ((twoFamilies.table.changePacket 2 .add arriving).1.testPacket 1 arriving).2 = false ∧
        (twoFamilies.table.changePacket 2 .add arriving).1 ≠ taken := by
  obtain ⟨taken, takes⟩ := twoFamilies_takes
  have there : (taken.testPacket 1 arriving).2 = true := by
    have tested : ((twoFamilies.table.changePacket 1 .add arriving).1.testPacket 1 arriving).2 =
        true := by decide +kernel
    rwa [Table.changePacket_takes takes] at tested
  have missing :
      ((twoFamilies.table.changePacket 2 .add arriving).1.testPacket 1 arriving).2 = false := by
    decide +kernel
  refine ⟨twoFamilies_reachable, twoFamilies_list, twoFamilies_spares, taken, takes, there,
    by decide +kernel, missing, fun same => ?_⟩
  rw [same, there] at missing
  contradiction

end NamedSets.Session
