import Mathlib.Algebra.Order.BigOperators.Group.List
import Mathlib.Algebra.Order.Group.Nat
import Mathlib.Tactic.Choose
import NamedSets.Proofs.Table.Slots
import NamedSets.Table.Elements

namespace NamedSets

variable {σ : Type} [ForeignStorage σ] {table : Table σ}

/-- Listing never moves the cursor backwards, nor beyond a bound, whatever is in the slots. -/
def ForeignStorage.Steady (storage : σ) : Prop :=
  ∃ bound, ∀ slots, ∀ cursor ≤ bound, ∀ draft,
    cursor ≤ (ForeignStorage.list (ForeignStorage.observe storage slots) cursor draft).2.1 ∧
      (ForeignStorage.list (ForeignStorage.observe storage slots) cursor draft).2.1 ≤ bound

namespace Table

def ListsWithin (table : Table σ) (storage : Storage σ) (bound : Nat) : Prop :=
  ∀ cursor ≤ bound, ∀ draft, cursor ≤ (table.list storage cursor draft).2.1 ∧
    (table.list storage cursor draft).2.1 ≤ bound

omit [ForeignStorage σ] in
theorem write_between {low high cursor : Nat} (draft : Message.Draft)
    {entries : List (Option Attr.Tree × Nat)} (here : low ≤ cursor ∧ cursor ≤ high)
    (within : ∀ entry ∈ entries, low ≤ entry.2 ∧ entry.2 ≤ high) :
    low ≤ (write draft cursor entries).2.1 ∧ (write draft cursor entries).2.1 ≤ high := by
  induction entries generalizing draft cursor with
  | nil => exact here
  | cons entry rest ih =>
      obtain ⟨tree?, next⟩ := entry
      obtain ⟨there, others⟩ := List.forall_mem_cons.mp within
      cases tree? with
      | none => exact ih draft there others
      | some tree =>
          simp only [write]
          split
          · rename_i written _
            exact ih written there others
          · exact here

/-- What bounds the cursor of a storage does not depend on the table, which only has the names
of members. -/
theorem listsWithin_exists (storage : Storage σ)
    (steady : ∀ foreign, storage = .foreign foreign → ForeignStorage.Steady foreign) :
    ∃ bound, ∀ table : Table σ, table.ListsWithin storage bound := by
  cases storage with
  | hash hash =>
      refine ⟨(hash.elements.map (·.1 + 1)).sum, fun table cursor bounded draft => ?_⟩
      refine write_between draft ⟨Nat.le_refl cursor, bounded⟩ fun listed present => ?_
      obtain ⟨element, listing, rfl⟩ := List.mem_map.mp present
      obtain ⟨stored, behind⟩ := List.mem_filter.mp listing
      have inside : element.1 + 1 ≤ (hash.elements.map (·.1 + 1)).sum :=
        List.single_le_sum (fun _ _ => Nat.zero_le _) _ (List.mem_map_of_mem stored)
      exact ⟨Nat.le_succ_of_le (of_decide_eq_true behind), inside⟩
  | list list =>
      refine ⟨list.members.length, fun table cursor bounded draft => ?_⟩
      refine write_between draft ⟨Nat.le_refl cursor, bounded⟩ fun listed present => ?_
      obtain ⟨⟨member, next⟩, listing, rfl⟩ := List.mem_map.mp present
      obtain ⟨behind, inside, -⟩ := List.mem_zipIdx listing
      rw [List.length_drop] at inside
      change cursor ≤ next ∧ next ≤ list.members.length
      omega
  | foreign foreign =>
      obtain ⟨bound, within⟩ := steady foreign rfl
      exact ⟨bound, fun table => within table.shown⟩

def AllListWithin (table : Table σ) (bounds : Nat → Nat) : Prop :=
  ∀ slot storage, table.storage? slot = some storage →
    ∀ other : Table σ, other.ListsWithin storage (bounds slot)

theorem allListWithin_exists (steady : ∀ slot storage,
    table.storage? slot = some (.foreign storage) → ForeignStorage.Steady storage) :
    ∃ bounds, table.AllListWithin bounds := by
  have bound (slot : Nat) : ∃ bound, ∀ storage, table.storage? slot = some storage →
      ∀ other : Table σ, other.ListsWithin storage bound := by
    cases stored : table.storage? slot with
    | none => exact ⟨0, by simp⟩
    | some storage =>
        obtain ⟨bound, within⟩ := listsWithin_exists storage fun foreign same =>
          steady slot foreign (by rw [stored, same])
        refine ⟨bound, fun other same => ?_⟩
        cases same
        exact within
  choose bounds within using bound
  exact ⟨bounds, within⟩

end Table

end NamedSets
