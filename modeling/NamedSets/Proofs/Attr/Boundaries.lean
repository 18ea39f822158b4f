import NamedSets.Proofs.Attr.Reading

/-!
# Boundaries of attributes

A block that splits into attributes is the sequence of their headers and padded payloads, the
last of which need not be padded. A reader that keeps to the payload behind a header makes of
such a block what it makes of its attributes one by one.
-/

namespace NamedSets.Attr

variable {α : Type} {read : Header → Bytes → Except Fault (Option α × Nat)} {raw : Raw}
  {raws : List Raw} {block payload rest : Bytes} {tag : Tag} {header : Header}
  {length₀ length₁ tag₀ tag₁ : UInt8}

def Raw.alone (raw : Raw) : Bytes := Tree.header raw.tag raw.payload.length ++ raw.payload

/-! ## Headers -/

private theorem ofLittle_pair_lt (first second : UInt8) :
    Bytes.ofLittle [first, second] < 65536 := by
  have low := first.toNat_lt
  have high := second.toNat_lt
  simp only [Bytes.ofLittle]
  omega

/-- A header is the one that is written for its tag and its length, and the length lies within
what follows. -/
theorem Header.read_ok (found : Header.read length₀ length₁ tag₀ tag₁ rest = .ok header) :
    [length₀, length₁, tag₀, tag₁] = Tree.header header.tag header.length ∧
      header.length ≤ rest.length ∧ 4 + header.length < 65536 := by
  have total := ofLittle_pair_lt length₀ length₁
  have word := ofLittle_pair_lt tag₀ tag₁
  have width : Bytes.little 2 (Bytes.ofLittle [length₀, length₁]) = [length₀, length₁] :=
    Bytes.little_ofLittle [length₀, length₁]
  have number : Bytes.little 2 (Bytes.ofLittle [tag₀, tag₁]) = [tag₀, tag₁] :=
    Bytes.little_ofLittle [tag₀, tag₁]
  unfold Header.read at found
  extract_lets total₀ length at found
  split at found
  · contradiction
  · rename_i inside
    simp only [Bool.or_eq_true, decide_eq_true_eq, not_or, Nat.not_lt, List.length_take] at inside
    cases found
    have announced : 4 + length = Bytes.ofLittle [length₀, length₁] := by
      have covers : headerLength ≤ total₀ := inside.1
      simp only [length, total₀, headerLength] at covers ⊢
      omega
    refine ⟨?_, ?_, Nat.lt_of_le_of_lt (Nat.le_of_eq announced) total⟩
    · rw [Tree.header, Tag.word_ofWord word, announced, width, number]
      rfl
    · change length ≤ rest.length
      omega

/-- Behind a header that lies within the block, a reader is asked once, and the rest is read
from where it or the padded payload ends. -/
theorem readAll_header_eq (tag : Tag) {length : Nat} (short : 4 + length < 65536)
    (enough : length ≤ rest.length) :
    readAll read (Tree.header tag length ++ rest) =
      (read { tag, length } rest).bind fun answer =>
        (readAll read (rest.drop (max answer.2 (Bytes.aligned length)))).map
          (answer.1.toList ++ ·) := by
  obtain ⟨_, _, _, _, written, header⟩ := exists_header_read tag short enough
  simp only [written, List.cons_append, List.nil_append]
  rw [readAll]
  simp only [header]
  cases read { tag, length } rest with
  | error fault => rfl
  | ok answer =>
      simp only [Except.bind]
      cases readAll read (rest.drop (max answer.2 (Bytes.aligned length))) <;> rfl

theorem readAll_nil : readAll read [] = .ok [] := by
  rw [readAll]
  simp

/-! ## Blocks that split -/

/-- Where a block splits: nothing, or an attribute with its padding in front of a block that
splits. -/
theorem split_cases (parts : split block = .ok raws) :
    (raws = [] ∧ ∀ (α : Type) (read : Header → Bytes → Except Fault (Option α × Nat)),
      readAll read block = .ok []) ∨
    ∃ raw others rest, raws = raw :: others ∧ 4 + raw.payload.length < 65536 ∧
      block = Tree.header raw.tag raw.payload.length ++ (raw.payload ++ rest) ∧
      split ((raw.payload ++ rest).drop (Bytes.aligned raw.payload.length)) = .ok others := by
  unfold split at parts
  rw [readAll.eq_def] at parts
  split at parts
  · rename_i length₀ length₁ tag₀ tag₁ rest
    split at parts
    · contradiction
    · rename_i header found
      obtain ⟨written, inside, short⟩ := Header.read_ok found
      have long : (rest.take header.length).length = header.length := List.length_take_of_le inside
      have behind : max header.length (Bytes.aligned header.length) =
          Bytes.aligned header.length := Nat.max_eq_right (Bytes.le_aligned _)
      simp only [Raw.read, behind] at parts
      split at parts
      · contradiction
      · rename_i others parted
        cases parts
        refine .inr ⟨_, others, rest.drop header.length, rfl, by rwa [long], ?_, ?_⟩
        · rw [long, List.take_append_drop, ← written]
          rfl
        · rwa [long, List.take_append_drop]
  · rename_i few
    cases parts
    refine .inl ⟨rfl, fun α read => ?_⟩
    rw [readAll.eq_def]
    split
    · exact (few _ _ _ _ _ rfl).elim
    · rfl

/-- An attribute of a block is shorter than the block. -/
theorem length_lt_of_mem_split (parts : split block = .ok raws) (present : raw ∈ raws) :
    raw.payload.length < block.length := by
  induction raws generalizing block with
  | nil => contradiction
  | cons first rest ih =>
      obtain ⟨impossible, -⟩ | ⟨_, _, fill, same, -, rfl, others⟩ := split_cases parts
      · contradiction
      · cases same
        simp only [Tree.header, List.length_append, Bytes.length_little]
        rcases List.mem_cons.mp present with rfl | later
        · omega
        · have shorter := ih others later
          simp only [List.length_drop, List.length_append] at shorter
          omega

/-- The length of an attribute of a block fits into its header. -/
theorem length_of_mem_split (parts : split block = .ok raws) (present : raw ∈ raws) :
    4 + raw.payload.length < 65536 := by
  induction raws generalizing block with
  | nil => contradiction
  | cons first rest ih =>
      obtain ⟨impossible, -⟩ | ⟨_, _, _, same, short, -, others⟩ := split_cases parts
      · contradiction
      · cases same
        rcases List.mem_cons.mp present with rfl | later
        · exact short
        · exact ih others later

/-! ## Readers that keep to the attributes -/

/-- What a reader makes of an attribute does not depend on what follows the payload, and it
takes no more than the payload. -/
structure Confined (read : Header → Bytes → Except Fault (Option α × Nat)) (raw : Raw) : Prop where
  local_eq : ∀ rest, read raw.header (raw.payload ++ rest) = read raw.header raw.payload
  taken_le : ∀ found taken, read raw.header raw.payload = .ok (found, taken) →
    taken ≤ raw.payload.length

/-- Alone, an attribute is read as its reader reads the payload. -/
theorem readAll_alone (short : 4 + raw.payload.length < 65536) :
    readAll read raw.alone =
      (read raw.header raw.payload).map fun found => found.1.toList := by
  have nothing (taken : Nat) :
      raw.payload.drop (max taken (Bytes.aligned raw.payload.length)) = [] := by
    refine List.drop_of_length_le (Nat.le_trans (Bytes.le_aligned _) (Nat.le_max_right _ _))
  rw [Raw.alone, readAll_header_eq raw.tag short (Nat.le_refl _)]
  simp only [nothing, readAll_nil, Except.map, List.append_nil]
  rfl

theorem ok_of_mem_of_mapM {β γ ε : Type} {items : List β} {results : List γ}
    {convert : β → Except ε γ} {item : β} (accepted : items.mapM convert = .ok results)
    (present : item ∈ items) : ∃ result, convert item = .ok result := by
  induction items generalizing results with
  | nil => contradiction
  | cons first rest ih =>
      rw [List.mapM_cons] at accepted
      cases made : convert first with
      | error fault => simp [made, bind, Except.bind] at accepted
      | ok result =>
          cases others : rest.mapM convert with
          | error fault => simp [made, others, bind, Except.bind] at accepted
          | ok remaining =>
              rcases List.mem_cons.mp present with rfl | later
              · exact ⟨result, made⟩
              · exact ih others later

/-- A reader that keeps to the attributes of a block makes of the block what it makes of each
of them alone, in order, up to the first that it refuses. -/
theorem readAll_eq_mapM_alone (parts : split block = .ok raws)
    (confined : ∀ raw ∈ raws, Confined read raw) :
    readAll read block = (raws.mapM fun raw => readAll read raw.alone).map List.flatten := by
  induction raws generalizing block with
  | nil =>
      obtain ⟨-, nothing⟩ | ⟨_, _, _, impossible, -⟩ := split_cases parts
      · exact nothing α read
      · contradiction
  | cons first others ih =>
      obtain ⟨impossible, -⟩ | ⟨_, _, rest, same, short, rfl, parted⟩ := split_cases parts
      · contradiction
      · cases same
        obtain ⟨here, later⟩ := List.forall_mem_cons.mp confined
        have remaining := ih parted later
        rw [readAll_header_eq first.tag short (by simp), List.mapM_cons, readAll_alone short]
        have answered := here.local_eq rest
        change read { tag := first.tag, length := first.payload.length } _ = _ at answered
        rw [answered]
        cases made : read first.header first.payload with
        | error fault => rfl
        | ok answer =>
            have within : answer.2 ≤ Bytes.aligned first.payload.length :=
              Nat.le_trans (here.taken_le _ _ made) (Bytes.le_aligned _)
            simp only [Except.bind, Nat.max_eq_right within, remaining]
            cases others.mapM fun raw => readAll read raw.alone <;> rfl

end NamedSets.Attr
