import NamedSets.Proofs.Attr.Boundaries

namespace NamedSets.Attr

variable {block : Bytes} {raws : List Raw} {trees : List Tree}

def forest (block : Bytes) : Except Fault (List Tree) :=
  match _parts : split block with
  | .error fault => .error fault
  | .ok raws => raws.attach.mapM fun ⟨raw, _present⟩ =>
      if raw.tag.nested then (forest raw.payload).map (.nest raw.tag)
      else .ok (.value raw.tag raw.payload)
termination_by block.length
decreasing_by exact length_lt_of_mem_split _parts _present

def Raw.unfolded (raw : Raw) : Except Fault Tree :=
  if raw.tag.nested then (forest raw.payload).map (.nest raw.tag)
  else .ok (.value raw.tag raw.payload)

theorem forest_of_split (parts : split block = .ok raws) :
    forest block = raws.mapM Raw.unfolded := by
  rw [forest]
  split
  · rename_i refused
    cases refused.symm.trans parts
  · rename_i others found
    cases found.symm.trans parts
    change raws.attach.mapM (Raw.unfolded ∘ Subtype.val) = _
    rw [← List.mapM_map, List.attach_map_subtype_val]

namespace Tree

mutual

/-- Nests are marked as such, and values are not. -/
def Marked : Tree → Prop
  | value tag _ => tag.nested = false
  | nest tag items => tag.nested = true ∧ MarkedAll items

def MarkedAll : List Tree → Prop
  | [] => True
  | item :: rest => item.Marked ∧ MarkedAll rest

end

theorem mapM_unfolded (unfolded : ∀ tree ∈ trees, tree.raw.unfolded = .ok tree) :
    (trees.map raw).mapM Raw.unfolded = .ok trees := by
  induction trees with
  | nil => rfl
  | cons tree rest ih =>
      obtain ⟨first, others⟩ := List.forall_mem_cons.mp unfolded
      rw [List.map_cons, List.mapM_cons, first, ih others]
      rfl

theorem forest_encodeAll_of (small : sizeAll trees < 65536)
    (unfolded : ∀ tree ∈ trees, tree.raw.unfolded = .ok tree) :
    forest (encodeAll trees) = .ok trees := by
  have parts : split (encodeAll trees) = .ok (trees.map raw) :=
    split_encodeAll fun tree present => Nat.lt_of_le_of_lt (size_le_sizeAll present) small
  rw [forest_of_split parts, mapM_unfolded unfolded]

mutual

theorem unfolded_raw : (tree : Tree) → tree.size < 65536 → tree.Marked →
    tree.raw.unfolded = .ok tree
  | value tag payload, _, marked => by
      have plain : tag.nested = false := marked
      simp only [raw, Raw.unfolded, plain, Bool.false_eq_true, if_false]
  | nest tag items, small, marked => by
      have inside : sizeAll items < 65536 := by
        simp only [size] at small
        omega
      have read := forest_encodeAll_of inside (unfolded_raw_all items inside marked.2)
      simp only [raw, Raw.unfolded, if_pos marked.1, read, Except.map]

theorem unfolded_raw_all : (trees : List Tree) → sizeAll trees < 65536 → MarkedAll trees →
    ∀ tree ∈ trees, tree.raw.unfolded = .ok tree
  | [], _, _ => by simp
  | tree :: rest, small, marked => by
      simp only [sizeAll] at small
      exact List.forall_mem_cons.mpr ⟨unfolded_raw tree (by omega) marked.1,
        unfolded_raw_all rest (by omega) marked.2⟩

end

/-- A block of trees is taken apart into these trees. -/
theorem forest_encodeAll (small : sizeAll trees < 65536) (marked : MarkedAll trees) :
    forest (encodeAll trees) = .ok trees :=
  forest_encodeAll_of small (unfolded_raw_all trees small marked)

end Tree

end NamedSets.Attr
