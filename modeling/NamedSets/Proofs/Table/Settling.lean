import NamedSets.Proofs.Table.Restoring

/-!
# Adds that settle

An add that asks for more room is tried again once there is more. A hash asks for it only when
it is as large as the number of its elements, so that it asks once at most: twice as large it has
room for one more, or it would be larger than any hash.
-/

namespace NamedSets

namespace Table

/-! ## What is tried -/

inductive Attempt where
  | add
  | resize (again : Bool)
deriving DecidableEq

def Attempt.isResize : Attempt → Bool
  | add => false
  | resize _ => true

section

variable {State : Type} {add : State → State × Except Fault Unit}
  {resize : Bool → State → State × Except Fault Unit} {state : State}

/-- Steps that are seen as others in every state settle as the others do. -/
theorem settle_seen {Other : Type} (seen : Other → State)
    {addOther : Other → Other × Except Fault Unit}
    {resizeOther : Bool → Other → Other × Except Fault Unit}
    (adds : ∀ other, (addOther other).map seen id = add (seen other))
    (resizes : ∀ again other, (resizeOther again other).map seen id = resize again (seen other))
    (retries : Nat) (resized : Bool) (other : Other) :
    (settle addOther resizeOther retries resized other).map seen id =
      settle add resize retries resized (seen other) := by
  have ran := settles addOther resizeOther retries resized other
  generalize settle addOther resizeOther retries resized other = outcome at ran ⊢
  induction ran with
  | @last _ resized other _ _ tried final =>
      have first := adds other
      rw [tried] at first
      exact (settle_last resized first.symm final).symm
  | @stuck _ resized other after _ _ _ tried full refused =>
      have first := adds other
      have second := resizes resized after
      rw [tried] at first
      rw [refused] at second
      exact (settle_stuck first.symm full second.symm).symm
  | @grown _ resized other after _ _ _ tried full growth _ ih =>
      have first := adds other
      have second := resizes resized after
      rw [tried] at first
      rw [growth] at second
      exact ih.trans (settle_grown first.symm full second.symm).symm

def noting (attempt : Attempt) (step : State → State × Except Fault Unit)
    (noted : State × List Attempt) : (State × List Attempt) × Except Fault Unit :=
  (step noted.1).map (·, noted.2 ++ [attempt]) id

theorem noting_eq {step : State → State × Except Fault Unit} {after : State}
    {result : Except Fault Unit} (tried : step state = (after, result)) (attempt : Attempt)
    (earlier : List Attempt) :
    noting attempt step (state, earlier) = ((after, earlier ++ [attempt]), result) := by
  rw [noting, tried]
  rfl

end

end Table

/-! ## Hashes that grow -/

namespace AddressHash

variable {hash : AddressHash} {family : Family} {element : Address}

def HasRoom (hash : AddressHash) : Prop :=
  hash.elements.length < hash.maxElements.toNat ∧ hash.elements.length < greatestHashSize

instance (hash : AddressHash) : Decidable hash.HasRoom := inferInstanceAs (Decidable (_ ∧ _))

def doubled (hash : AddressHash) : AddressHash := { hash with hashSize := hash.hashSize * 2 }

def withElement (hash : AddressHash) (element : Address) : AddressHash :=
  { hash with
    elements := hash.elements ++ [(hash.nextSequence, element)]
    nextSequence := hash.nextSequence + 1
    hashSize := if hash.elements.length < hash.hashSize then hash.hashSize else hash.hashSize * 2 }

theorem contains_withElement (hash : AddressHash) (element : Address) :
    (hash.withElement element).contains element = true := by
  simp [withElement, contains]

theorem withElement_doubled (filled : ¬ hash.elements.length < hash.hashSize)
    (wider : hash.elements.length < hash.hashSize * 2) :
    hash.doubled.withElement element = hash.withElement element := by
  have inside : hash.doubled.elements.length < hash.doubled.hashSize := wider
  rw [withElement, if_pos inside, withElement, if_neg filled]
  rfl

/-- A hash that is not the largest one can be twice as large. -/
theorem Regular.doubled_le (regular : hash.Regular family)
    (smaller : hash.hashSize < greatestHashSize) : hash.hashSize * 2 ≤ greatestHashSize := by
  obtain ⟨exponent, size⟩ := regular.size
  have greatest : greatestHashSize = Nat.pow 2 31 := rfl
  rw [size, greatest] at smaller ⊢
  have below : exponent < 31 := (Nat.pow_lt_pow_iff_right Nat.one_lt_two).mp smaller
  exact Nat.pow_le_pow_right Nat.zero_lt_two below

theorem insert_fresh (fresh : hash.contains element = false) :
    hash.insert element =
      if hash.maxElements.toNat ≤ hash.elements.length then .error .hashFull
      else if hash.hashSize ≤ hash.elements.length then .error .mustResize
      else .ok (hash.withElement element) := by
  rw [insert, if_neg (by simp [fresh])]
  split
  · rfl
  · split
    · rfl
    · rename_i wide
      rw [withElement, if_pos (Nat.not_le.mp wide)]

/-- What an insertion of a new element comes to, and what comes of it in a larger hash if it asks
for one. -/
inductive Insertion (hash : AddressHash) (element : Address) : Prop
  | inserted (room : hash.HasRoom) (done : hash.insert element = .ok (hash.withElement element))
  | full (room : ¬ hash.HasRoom) (refused : hash.insert element = .error .hashFull)
  | stuck (room : ¬ hash.HasRoom) (asked : hash.insert element = .error .mustResize)
      (refused : hash.resize false = .error .hashFull)
  | grown (room : hash.HasRoom) (asked : hash.insert element = .error .mustResize)
      (grows : hash.resize false = .ok hash.doubled)
      (done : hash.doubled.insert element = .ok (hash.withElement element))

theorem Regular.insertion (regular : hash.Regular family)
    (fresh : hash.contains element = false) : hash.Insertion element := by
  have first := insert_fresh fresh
  by_cases fewer : hash.elements.length < hash.maxElements.toNat
  · rw [if_neg (Nat.not_le.mpr fewer)] at first
    by_cases wide : hash.elements.length < hash.hashSize
    · rw [if_neg (Nat.not_le.mpr wide)] at first
      exact .inserted ⟨fewer, Nat.lt_of_lt_of_le wide regular.small⟩ first
    · have filled : hash.elements.length = hash.hashSize :=
        Nat.le_antisymm regular.room (Nat.not_lt.mp wide)
      rw [if_pos (Nat.not_lt.mp wide)] at first
      have positive : 0 < hash.hashSize := Nat.lt_of_lt_of_le (by decide) regular.large
      by_cases smaller : hash.hashSize < greatestHashSize
      · have wider : hash.elements.length < hash.hashSize * 2 := by omega
        refine .grown ⟨fewer, filled ▸ smaller⟩ first (if_pos (regular.doubled_le smaller)) ?_
        have few : ¬ hash.doubled.maxElements.toNat ≤ hash.doubled.elements.length :=
          Nat.not_le.mpr fewer
        have vast : ¬ hash.doubled.hashSize ≤ hash.doubled.elements.length := Nat.not_le.mpr wider
        have second : hash.doubled.contains element = false := fresh
        rw [insert_fresh second, if_neg few, if_neg vast, withElement_doubled wide wider]
      · have beyond : ¬ hash.hashSize * 2 ≤ greatestHashSize := by omega
        exact .stuck (fun room => smaller (filled ▸ room.2)) first (if_neg beyond)
  · rw [if_pos (Nat.not_lt.mp fewer)] at first
    exact .full (fun room => fewer room.1) first

end AddressHash

namespace Table

variable {σ : Type} [ForeignStorage σ] {table : Table σ} {slot : Nat} {hash : AddressHash}
  {data : List Datum} {element : Address} {family : Family} {retries : Nat}

def addElementNoting (table : Table σ) (slot : Nat) (retries : Nat) (data : List Datum) :
    (Table σ × List Attempt) × Except Fault Unit :=
  settle (noting .add fun table => table.addElement slot data)
    (fun again => noting (.resize again) fun table => table.resize slot again) retries false
    (table, [])

/-- Noting what is tried does not change what comes of it. -/
theorem addElementNoting_seen (table : Table σ) (slot : Nat) (retries : Nat) (data : List Datum) :
    (table.addElementNoting slot retries data).map Prod.fst id =
      table.addElementResizing slot retries data :=
  settle_seen Prod.fst (fun _ => rfl) (fun _ _ => rfl) retries false (table, [])

/-- A new element is added to a hash, or the hash is full and stays as it is. It is asked to grow
once at most. -/
theorem addElementNoting_hash (regular : hash.Regular family)
    (stored : table.storage? slot = some (.hash hash))
    (described : hash.elementOfData data = .ok element) (fresh : hash.contains element = false)
    (retry : 1 ≤ retries) :
    ∃ attempts, attempts.countP Attempt.isResize ≤ 1 ∧
      table.addElementNoting slot retries data =
        if hash.HasRoom then
          ((table.setStorage slot (.hash (hash.withElement element)), attempts), .ok ())
        else ((table, attempts), .error .hashFull) := by
  have first := addElement_of_hash stored described
  have second := resize_of_hash stored false
  obtain ⟨fewer, rfl⟩ := Nat.exists_eq_add_of_le' retry
  cases regular.insertion fresh with
  | inserted room done =>
      rw [done] at first
      refine ⟨[.add], Nat.zero_le 1, ?_⟩
      rw [if_pos room]
      exact settle_done _ false (noting_eq first .add [])
  | full room refused =>
      rw [refused] at first
      refine ⟨[.add], Nat.zero_le 1, ?_⟩
      rw [if_neg room]
      exact settle_failed false (noting_eq first .add []) nofun
  | stuck room asked refused =>
      rw [asked] at first
      rw [refused] at second
      refine ⟨[.add, .resize false], Nat.le_refl 1, ?_⟩
      rw [if_neg room]
      exact settle_stuck (noting_eq first .add []) rfl (noting_eq second (.resize false) [.add])
  | grown room asked grows done =>
      rw [asked] at first
      rw [grows] at second
      have there : (table.setStorage slot (.hash hash.doubled)).storage? slot =
          some (.hash hash.doubled) := by
        rw [storage_setStorage stored, if_pos rfl]
      -- What the data describe does not depend on the size.
      have again := addElement_of_hash there described
      rw [done] at again
      refine ⟨[.add, .resize false, .add], Nat.le_refl 1, ?_⟩
      rw [if_pos room, ← setStorage_setStorage table slot (.hash hash.doubled)]
      refine (settle_grown (noting_eq first .add []) rfl
        (noting_eq second (.resize false) [.add])).trans ?_
      exact settle_done _ true (noting_eq again .add [.add, .resize false])

end Table

end NamedSets
