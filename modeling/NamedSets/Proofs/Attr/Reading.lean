import NamedSets.Attr.Raw
import NamedSets.Attr.Tree

namespace NamedSets.Attr

variable {α : Type} {read : Header → Bytes → Except Fault (Option α × Nat)} {tree : Tree}
  {trees : List Tree} {rest : Bytes}

/-- An attribute as its receiver gets it, before anybody interprets the payload. -/
def Tree.raw : Tree → Raw
  | .value tag payload => { tag, payload }
  | .nest tag items => { tag, payload := encodeAll items }

def Raw.header (raw : Raw) : Header where
  tag := raw.tag
  length := raw.payload.length

namespace Tree

theorem aligned_sizeAll (trees : List Tree) : Bytes.aligned (sizeAll trees) = sizeAll trees := by
  have whole := sizeAll_mod trees
  unfold Bytes.aligned
  omega

theorem size_eq (tree : Tree) : tree.size = 4 + Bytes.aligned tree.raw.payload.length := by
  cases tree with
  | value tag payload => simp only [size, raw]
  | nest tag items => simp only [size, raw, length_encodeAll, aligned_sizeAll]

theorem encode_eq (tree : Tree) :
    tree.encode = header tree.raw.tag tree.raw.payload.length ++
      (tree.raw.payload ++ Bytes.padding tree.raw.payload.length) := by
  cases tree with
  | value tag payload => simp only [encode, raw, List.append_assoc]
  | nest tag items =>
      have whole : Bytes.padding (sizeAll items) = [] := by
        simp only [Bytes.padding, aligned_sizeAll, Nat.sub_self, Bytes.zeros, List.replicate_zero]
      simp only [encode, raw, length_encodeAll, whole, List.append_nil]

theorem size_le_sizeAll (present : tree ∈ trees) : tree.size ≤ sizeAll trees := by
  induction trees with
  | nil => contradiction
  | cons first rest ih =>
      simp only [sizeAll]
      rcases List.mem_cons.mp present with rfl | later
      · exact Nat.le_add_right _ _
      · exact Nat.le_add_left_of_le (ih later)

theorem length_raw_lt (small : tree.size < 65536) : 4 + tree.raw.payload.length < 65536 := by
  have fits := Bytes.le_aligned tree.raw.payload.length
  rw [size_eq] at small
  omega

end Tree

/-! ## One attribute -/

theorem exists_header_read (tag : Tag) {length : Nat} (short : 4 + length < 65536)
    (enough : length ≤ rest.length) :
    ∃ length₀ length₁ tag₀ tag₁, Tree.header tag length = [length₀, length₁, tag₀, tag₁] ∧
      Header.read length₀ length₁ tag₀ tag₁ rest = .ok { tag, length } := by
  have width : Bytes.ofLittle (Bytes.little 2 (4 + length)) = 4 + length := by
    rw [Bytes.ofLittle_little]
    exact Nat.mod_eq_of_lt short
  have word : Bytes.ofLittle (Bytes.little 2 tag.word) = tag.word := by
    rw [Bytes.ofLittle_little]
    exact Nat.mod_eq_of_lt tag.word_lt
  have inside : (rest.take length).length = length := List.length_take_of_le enough
  simp only [Bytes.little] at width word
  refine ⟨_, _, _, _, rfl, ?_⟩
  simp only [Header.read, width, word, headerLength, Tag.ofWord_word, Nat.add_sub_cancel_left,
    inside]
  simp

theorem readAll_header (tag : Tag) {length taken : Nat} {found : Option α} {others : List α}
    (short : 4 + length < 65536) (enough : length ≤ rest.length)
    (accepted : read { tag, length } rest = .ok (found, taken))
    (remaining : readAll read (rest.drop (max taken (Bytes.aligned length))) = .ok others) :
    readAll read (Tree.header tag length ++ rest) = .ok (found.toList ++ others) := by
  obtain ⟨_, _, _, _, written, header⟩ := exists_header_read tag short enough
  simp only [written, List.cons_append, List.nil_append]
  rw [readAll]
  simp only [header, accepted, remaining]

/-- A reader makes this of an attribute, whatever follows its payload, without reading beyond
the attribute. -/
def Reads (read : Header → Bytes → Except Fault (Option α × Nat)) (raw : Raw)
    (found : Option α) : Prop :=
  ∀ rest, ∃ taken ≤ Bytes.aligned raw.payload.length,
    read raw.header (raw.payload ++ rest) = .ok (found, taken)

theorem readAll_encode {found : Option α} {others : List α}
    (short : 4 + tree.raw.payload.length < 65536) (reads : Reads read tree.raw found)
    (remaining : readAll read rest = .ok others) :
    readAll read (tree.encode ++ rest) = .ok (found.toList ++ others) := by
  obtain ⟨taken, within, accepted⟩ := reads (Bytes.padding tree.raw.payload.length ++ rest)
  have padded : (tree.raw.payload ++ (Bytes.padding tree.raw.payload.length ++ rest)).drop
      (Bytes.aligned tree.raw.payload.length) = rest := by
    have fits := Bytes.le_aligned tree.raw.payload.length
    rw [← List.append_assoc]
    refine List.drop_left' ?_
    rw [List.length_append, Bytes.length_padding]
    omega
  rw [tree.encode_eq, List.append_assoc, List.append_assoc]
  refine readAll_header _ short (by simp) accepted ?_
  rw [Nat.max_eq_right within, padded]
  exact remaining

/-! ## Blocks of attributes -/

/-- A block is read as what the reader makes of its attributes, in order. -/
theorem readAll_encodeAll {β : Type} {write : β → Tree} {meaning : β → Option α} {items : List β}
    (small : ∀ item ∈ items, (write item).size < 65536)
    (reads : ∀ item ∈ items, Reads read (write item).raw (meaning item)) :
    readAll read (Tree.encodeAll (items.map write)) = .ok (items.filterMap meaning) := by
  induction items with
  | nil => simp [Tree.encodeAll, readAll]
  | cons item rest ih =>
      have remaining := ih (fun other present => small other (List.mem_cons_of_mem _ present))
        (fun other present => reads other (List.mem_cons_of_mem _ present))
      rw [List.map_cons, Tree.encodeAll,
        readAll_encode (Tree.length_raw_lt (small item List.mem_cons_self))
          (reads item List.mem_cons_self) remaining]
      cases found : meaning item <;> simp [found]

theorem reads_raw (raw : Raw) : Reads Raw.read raw (some raw) := by
  intro rest
  refine ⟨raw.payload.length, Bytes.le_aligned _, ?_⟩
  simp only [Raw.read, Raw.header, List.take_left]

theorem split_encodeAll (small : ∀ tree ∈ trees, tree.size < 65536) :
    split (Tree.encodeAll trees) = .ok (trees.map Tree.raw) := by
  have read : split (Tree.encodeAll (trees.map id)) =
      .ok (trees.filterMap fun tree => some tree.raw) :=
    readAll_encodeAll small fun tree _ => reads_raw tree.raw
  rwa [List.map_id, List.filterMap_eq_map'] at read

end NamedSets.Attr
