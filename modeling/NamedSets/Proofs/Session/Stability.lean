import NamedSets.Proofs.Session.Soundness

namespace NamedSets.Session

open Relation (ReflTransGen)

variable {σ : Type} [ForeignStorage σ] {start later : Session σ} {slot : Nat}

/-- Somebody holds a reference to a slot: a list of sets, a dump in progress or a user. -/
def Holds (session : Session σ) (slot : Nat) : Prop :=
  (∃ id, slot ∈ session.table.members id) ∨
  (∃ dump ∈ session.dumps, dump.cursor.isSome ∧ dump.slot = slot) ∨
  slot ∈ session.holds

omit [ForeignStorage σ] in
theorem Sound.references_ne_zero {session : Session σ} (sound : session.Sound)
    (held : session.Holds slot) :
    ∃ entry, session.table.get? slot = some entry ∧ entry.references ≠ 0 := by
  rcases held with ⟨id, listed⟩ | ⟨dump, present, started, rfl⟩ | held
  · obtain ⟨entry, found, -⟩ := sound.table.plain listed
    refine ⟨entry, found, fun unused => ?_⟩
    exact (sound.table.unreferenced found unused).1 id listed
  · exact sound.table.references_ne_zero (mem_outside_of_dump present started)
  · exact sound.table.references_ne_zero (List.mem_append_right _ held)

/-- During a run in which a slot is always held when an operation is issued, the slot stays
occupied, and the name of its set and the features and the family of its type never change. -/
theorem held_slot_stable (reachable : start.Reachable Balanced) (held : start.Holds slot)
    (run : ReflTransGen
      (Step fun session operation => session.Balanced operation ∧ session.Holds slot)
      start later) :
    ∃ first last, start.table.get? slot = some first ∧ later.table.get? slot = some last ∧
      last.name = first.name ∧ last.type.features = first.type.features ∧
        last.type.family = first.type.family := by
  have stable : later.Sound ∧ ∃ first last, start.table.get? slot = some first ∧
      later.table.get? slot = some last ∧ last.name = first.name ∧
        last.type.features = first.type.features ∧
          last.type.family = first.type.family := by
    induction run with
    | refl =>
        have sound := reachable.sound
        obtain ⟨entry, found, -⟩ := sound.references_ne_zero held
        exact ⟨sound, entry, entry, found, found, rfl, rfl, rfl⟩
    | tail _ last before =>
        obtain ⟨operation, balanced, stillHeld⟩ := last
        obtain ⟨sound, first, current, found, there, named, features, family⟩ := before
        obtain ⟨entry, here, used⟩ := sound.references_ne_zero stillHeld
        cases there.symm.trans here
        obtain ⟨next, present, sameName, sameFeatures, sameFamily⟩ :=
          (after_reform _ operation).keeps slot current there used
        exact ⟨sound.after balanced, first, next, found, present, sameName.trans named,
          sameFeatures.trans features, sameFamily.trans family⟩
  exact stable.2

theorem shared_holds : shared.Holds 0 := .inl ⟨1, by decide +kernel⟩

/-- Neither removing the held set nor renaming it succeeds. -/
theorem held_slot_stable_shared :
    let later := (shared.after (.destroy "m")).after (.rename "m" listName)
    shared.Reachable Balanced ∧ shared.Holds 0 ∧
      ∃ first last, shared.table.get? 0 = some first ∧ later.table.get? 0 = some last ∧
        last.name = first.name ∧ last.type.features = first.type.features ∧
          last.type.family = first.type.family := by
  have stillHeld : (shared.after (.destroy "m")).Holds 0 := .inl ⟨1, by decide +kernel⟩
  have destroyed : Step (fun session operation => session.Balanced operation ∧ session.Holds 0)
      shared (shared.after (.destroy "m")) :=
    .after (.destroy "m") ⟨.of_few trivial (by decide +kernel), shared_holds⟩
  have renamed : Step (fun session operation => session.Balanced operation ∧ session.Holds 0)
      (shared.after (.destroy "m")) ((shared.after (.destroy "m")).after (.rename "m" listName)) :=
    .after (.rename "m" listName) ⟨.of_few trivial (by decide +kernel), stillHeld⟩
  exact ⟨shared_reachable, shared_holds, held_slot_stable shared_reachable shared_holds
    ((ReflTransGen.single destroyed).tail renamed)⟩

end NamedSets.Session
