import NamedSets.Proofs.Table.Edits

namespace NamedSets

variable {σ : Type}

def Entry.label (entry : Entry σ) : SetName × SetType σ × Family :=
  (entry.name, entry.type, entry.family)

@[simp] theorem Entry.label_hold (entry : Entry σ) : entry.hold.label = entry.label := rfl

@[simp] theorem Entry.label_release (entry : Entry σ) : entry.release.label = entry.label := by
  unfold Entry.release
  split <;> rfl

namespace Table

variable {table after : Table σ} {id : Nat}

structure SameLabels (table after : Table σ) : Prop where
  capacity : after.capacity = table.capacity
  labels : ∀ slot, (after.get? slot).map Entry.label = (table.get? slot).map Entry.label

namespace SameLabels

theorem refl (table : Table σ) : SameLabels table table := ⟨rfl, fun _ => rfl⟩

theorem trans {middle : Table σ} (first : SameLabels table middle)
    (second : SameLabels middle after) : SameLabels table after :=
  ⟨second.capacity.trans first.capacity,
    fun slot => (second.labels slot).trans (first.labels slot)⟩

theorem modify (table : Table σ) (id : Nat) {change : Entry σ → Entry σ}
    (keeps : ∀ entry, (change entry).label = entry.label) :
    SameLabels table (table.modify id change) := by
  refine ⟨capacity_modify table id change, fun slot => ?_⟩
  rw [get_modify]
  split
  · cases table.get? slot with
    | none => rfl
    | some entry => exact congrArg some (keeps entry)
  · rfl

theorem hold (table : Table σ) (id : Nat) : SameLabels table (table.hold id) :=
  modify table id Entry.label_hold

theorem release (table : Table σ) (id : Nat) : SameLabels table (table.release id) :=
  modify table id Entry.label_release

theorem setStorage (table : Table σ) (id : Nat) (storage : Storage σ) :
    SameLabels table (table.setStorage id storage) :=
  modify table id fun _ => rfl

theorem releaseAll (table : Table σ) (ids : List Nat) : SameLabels table (table.releaseAll ids) :=
  foldl_preserves (SameLabels table)
    (fun middle id before => before.trans (release middle id)) ids (refl table)

theorem get {entry : Entry σ} (same : SameLabels table after)
    (found : table.get? id = some entry) :
    ∃ later, after.get? id = some later ∧ later.name = entry.name ∧ later.type = entry.type := by
  have label := same.labels id
  rw [found] at label
  obtain ⟨later, present, equal⟩ := Option.map_eq_some_iff.mp label
  simp only [Entry.label, Prod.mk.injEq] at equal
  exact ⟨later, present, equal.1, equal.2.1⟩

theorem symm (same : SameLabels table after) : SameLabels after table :=
  ⟨same.capacity.symm, fun slot => (same.labels slot).symm⟩

theorem of_edits {kind : PacketChange} (edits : Edits kind table after) :
    SameLabels table after := by
  refine edits.induction (SameLabels table) (refl table) fun middle later before edit => ?_
  refine before.trans ?_
  cases edit with
  | hold id => exact .hold middle id
  | release id => exact .release middle id
  | hash _ _ | list _ _ | foreign _ _ => exact .setStorage middle _ _

/-- A set is found where it was. -/
theorem find_eq (same : SameLabels table after) (name : String) :
    after.find? name = table.find? name := by
  have labelled (table : Table σ) : table.find? name =
      (table.slots.map (Option.map Entry.label)).findIdx? fun slot =>
        slot.any fun label => label.1.text = name := by
    rw [Array.findIdx?_map, find?]
    congr 1
    funext slot
    cases slot <;> rfl
  have labels : after.slots.map (Option.map Entry.label) =
      table.slots.map (Option.map Entry.label) := by
    apply Array.ext
    · rw [Array.size_map, Array.size_map]
      exact same.capacity
    · intro slot inside other
      rw [Array.size_map] at inside other
      have label := same.labels slot
      rw [get?, get?, Array.getElem?_eq_getElem inside, Array.getElem?_eq_getElem other] at label
      simpa using label
  rw [labelled, labelled, labels]

end SameLabels

end Table

end NamedSets
