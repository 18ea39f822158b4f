import NamedSets.Proofs.Datum.Reading
import NamedSets.Proofs.Storage.AddressHash
import NamedSets.Storage.Basic

/-!
# Parameters that make a storage again

What is written about a set includes the data that it could have been created from. Creation
brings these data into a normal form once, and nothing that happens to the set afterwards leaves
it, so that data which are read back make a storage with the same parameters.
-/

namespace NamedSets

/-! ## Hashes -/

namespace AddressHash

variable {hash after : AddressHash} {family : Family} {width : Nat} {kind : PacketChange}

structure Parameters.Normal (width : Nat) (parameters : Parameters) : Prop where
  size : leastHashSize ≤ parameters.hashSize.toNat
  netmask : ∀ length ∈ parameters.netmask, 1 ≤ length.toNat ∧ length.toNat < width

theorem Parameters.Normal.assign {parameters assigned : Parameters} {datum : Datum}
    (normal : parameters.Normal width) (accepted : parameters.assign width datum = .ok assigned) :
    assigned.Normal width := by
  cases datum with
  | hashSize size =>
      cases accepted
      refine ⟨?_, normal.netmask⟩
      rw [UInt32.toNat_max]
      exact Nat.le_max_right _ _
  | netmask length =>
      simp only [Parameters.assign] at accepted
      split at accepted
      · rename_i inside
        cases accepted
        refine ⟨normal.size, fun shorter present => ?_⟩
        split at present
        · contradiction
        · cases present
          exact ⟨inside.1, by omega⟩
      · contradiction
  | timeout seconds => contradiction
  | _ =>
      cases accepted
      exact ⟨normal.size, normal.netmask⟩

theorem Parameters.Normal.assignAll {parameters assigned : Parameters} {data : List Datum}
    (normal : parameters.Normal width)
    (accepted : data.foldlM (Parameters.assign width) parameters = .ok assigned) :
    assigned.Normal width := by
  induction data generalizing parameters with
  | nil =>
      cases accepted
      exact normal
  | cons datum rest ih =>
      rw [List.foldlM_cons] at accepted
      cases first : parameters.assign width datum with
      | error fault => simp [first, bind, Except.bind] at accepted
      | ok next => exact ih (normal.assign first) (by simpa [first, bind, Except.bind] using accepted)

/-- What creation brings about and every edit keeps. The elements are as the netmask leaves
them, and an insertion waits for the hash to grow. -/
structure Regular (hash : AddressHash) (family : Family) : Prop where
  sameFamily : hash.family = family
  netmask : ∃ width, width? family = some width ∧
    ∀ length ∈ hash.netmask, 1 ≤ length.toNat ∧ length.toNat < width
  size : ∃ exponent, hash.hashSize = Nat.pow 2 exponent
  large : leastHashSize ≤ hash.hashSize
  small : hash.hashSize ≤ greatestHashSize
  masked : ∀ element ∈ hash.elements, hash.element element.2 = .ok element.2
  room : hash.elements.length ≤ hash.hashSize

theorem create_regular {data : List Datum} (made : create family data = .ok hash) :
    hash.Regular family := by
  unfold create at made
  split at made
  · contradiction
  · rename_i width known
    split at made
    · contradiction
    · rename_i parameters assigned
      dsimp only at made
      split at made
      · rename_i small
        cases made
        have initial : Parameters.Normal width {} := ⟨by decide, by simp⟩
        have normal := initial.assignAll assigned
        exact ⟨rfl, ⟨width, known, normal.netmask⟩, exists_powerOfTwoFrom _,
          Nat.le_trans normal.size (le_powerOfTwoFrom _), small, by simp, Nat.zero_le _⟩
      · contradiction

theorem Regular.sublist {elements : List (Nat × Address)} (regular : hash.Regular family)
    (fewer : elements.Sublist hash.elements) : Regular { hash with elements } family where
  sameFamily := regular.sameFamily
  netmask := regular.netmask
  size := regular.size
  large := regular.large
  small := regular.small
  masked element present := regular.masked element (fewer.subset present)
  room := Nat.le_trans fewer.length_le regular.room

theorem Regular.edit (regular : hash.Regular family) (edit : hash.Edit kind after) :
    after.Regular family := by
  cases edit with
  | insert accepted itself =>
      obtain ⟨-, -, room, rfl⟩ := insert_ok accepted
      refine ⟨regular.sameFamily, regular.netmask, regular.size, regular.large, regular.small, ?_, ?_⟩
      · intro element present
        rcases List.mem_append.mp present with before | last
        · exact regular.masked element before
        · rw [List.mem_singleton.mp last]
          exact itself
      · rw [List.length_append, List.length_singleton]
        exact room
  | @resize again _ accepted =>
      -- The size is multiplied by a power of two, so it stays one.
      obtain ⟨small, rfl⟩ := resize_ok accepted
      have grows : hash.hashSize ≤ hash.hashSize * (if again then 4 else 2) :=
        Nat.le_mul_of_pos_right _ (by split <;> decide)
      have size : ∃ exponent, hash.hashSize * (if again then 4 else 2) = Nat.pow 2 exponent := by
        obtain ⟨exponent, size⟩ := regular.size
        rw [size]
        cases again with
        | false => exact ⟨exponent + 1, rfl⟩
        | true => exact ⟨exponent + 2, (Nat.mul_assoc _ 2 2).symm⟩
      exact ⟨regular.sameFamily, regular.netmask, size, Nat.le_trans regular.large grows, small,
        regular.masked, Nat.le_trans regular.room grows⟩
  | erase accepted =>
      rw [erase_ok accepted]
      exact regular.sublist List.filter_sublist
  | clear => exact regular.sublist (List.nil_sublist _)

/-- The data that a hash could have been created from. -/
def creationData (hash : AddressHash) : List Datum :=
  [.hashSize (.ofNat hash.hashSize), .maxElements hash.maxElements] ++
    (hash.netmask.map Datum.netmask).toList

def withAddresses (hash : AddressHash) (addresses : List Address) : AddressHash :=
  { hash with
    elements := addresses.zipIdx.map Prod.swap
    nextSequence := addresses.length }

@[simp] theorem addresses_withAddresses (hash : AddressHash) (addresses : List Address) :
    (hash.withAddresses addresses).elements.map (·.2) = addresses := by
  simp [withAddresses, List.map_map, Function.comp_def]

theorem Regular.toNat_hashSize (regular : hash.Regular family) :
    (UInt32.ofNat hash.hashSize).toNat = hash.hashSize :=
  UInt32.toNat_ofNat_of_lt' (Nat.lt_of_le_of_lt regular.small (by decide))

theorem assign_creationData (regular : hash.Regular family) (known : width? family = some width) :
    hash.creationData.foldlM (Parameters.assign width) {} = .ok {
      hashSize := .ofNat hash.hashSize, maxElements := hash.maxElements,
      netmask := hash.netmask } := by
  have size : max (UInt32.ofNat hash.hashSize) (.ofNat leastHashSize) = .ofNat hash.hashSize := by
    apply UInt32.toNat_inj.mp
    rw [UInt32.toNat_max, regular.toNat_hashSize]
    exact Nat.max_eq_left regular.large
  obtain ⟨_, same, bounds⟩ := regular.netmask
  cases same.symm.trans known
  cases masked : hash.netmask with
  | none => simp [creationData, masked, Parameters.assign, size, bind, Except.bind, pure, Except.pure]
  | some length =>
      obtain ⟨positive, short⟩ := bounds length masked
      have inside : 1 ≤ length.toNat ∧ length.toNat ≤ width := ⟨positive, Nat.le_of_lt short⟩
      have shorter : length.toNat ≠ width := Nat.ne_of_lt short
      simp [creationData, masked, Parameters.assign, size, inside, shorter, bind, Except.bind,
        pure, Except.pure]

/-- A hash that is created from what is written about another one has its parameters. -/
theorem create_creationData (regular : hash.Regular family) :
    create family hash.creationData = .ok (hash.withAddresses []) := by
  obtain ⟨width, known, -⟩ := regular.netmask
  have normal : powerOfTwoFrom hash.hashSize = hash.hashSize := by
    obtain ⟨exponent, size⟩ := regular.size
    rw [size, powerOfTwoFrom_pow]
  have sameFamily := regular.sameFamily
  simp only [create, known, assign_creationData regular known, regular.toNat_hashSize, normal,
    if_pos regular.small]
  rw [withAddresses, ← sameFamily]
  rfl

theorem elementOfData_ip (hash : AddressHash) (address : Address) :
    hash.elementOfData [.ip address] = hash.element address := rfl

theorem insert_withAddresses {addresses : List Address} {address : Address}
    (fresh : address ∉ addresses) (fewer : addresses.length < hash.maxElements.toNat)
    (room : addresses.length < hash.hashSize) :
    (hash.withAddresses addresses).insert address =
      .ok (hash.withAddresses (addresses ++ [address])) := by
  have absent : ¬ (hash.withAddresses addresses).contains address = true := by
    intro stored
    obtain ⟨element, present, same⟩ := List.any_eq_true.mp stored
    have among := List.mem_map_of_mem (f := Prod.snd) present
    rw [addresses_withAddresses, eq_of_beq same] at among
    exact fresh among
  have length : (hash.withAddresses addresses).elements.length = addresses.length := by
    simp [withAddresses]
  have below : ¬ (hash.withAddresses addresses).maxElements.toNat ≤ addresses.length :=
    Nat.not_le.mpr fewer
  have inside : ¬ (hash.withAddresses addresses).hashSize ≤ addresses.length :=
    Nat.not_le.mpr room
  rw [insert, if_neg absent, length, if_neg below, if_neg inside]
  simp [withAddresses, List.zipIdx_append]

end AddressHash

/-! ## Lists -/

namespace SetList

def creationData (list : SetList) : List Datum := [.size list.size]

theorem leastSize_le_create (data : List Datum) : leastSize.toNat ≤ (create data).size.toNat := by
  rw [create, UInt32.toNat_max]
  exact Nat.le_max_left _ _

theorem create_creationData {list : SetList} (large : leastSize.toNat ≤ list.size.toNat) :
    create list.creationData = { list with members := [] } := by
  have size : max leastSize list.size = list.size := by
    apply UInt32.toNat_inj.mp
    rw [UInt32.toNat_max]
    exact Nat.max_eq_right large
  simp [create, creationData, size]

end SetList

/-! ## Storages -/

namespace Storage

variable {σ : Type}

def creationData : Storage σ → List Datum
  | hash current => current.creationData
  | list current => current.creationData
  | foreign _ => []

/-- The storage can be made again from its creation data. What a foreign one makes of data is
not known. -/
def Regular (family : Family) : Storage σ → Prop
  | hash current => current.Regular family
  | list current => SetList.leastSize.toNat ≤ current.size.toNat
  | foreign _ => True

def emptied : Storage σ → Storage σ
  | hash current => hash (current.withAddresses [])
  | list current => list { current with members := [] }
  | foreign inner => foreign inner

/-- What becomes of it when the elements of the storage are added again in their order. -/
def renewed : Storage σ → Storage σ
  | hash current => hash (current.withAddresses (current.elements.map (·.2)))
  | list current => list current
  | foreign inner => foreign inner

def SameElements : Storage σ → Storage σ → Prop
  | hash first, hash second => first.elements.map (·.2) = second.elements.map (·.2)
  | list first, list second => first.members = second.members
  | _, _ => False

variable [ForeignStorage σ] {storage : Storage σ}

theorem sameParameters_emptied (builtin : ∀ inner, storage ≠ .foreign inner) :
    storage.sameParameters storage.emptied = true := by
  cases storage with
  | hash current =>
      simp [sameParameters, emptied, AddressHash.sameParameters, AddressHash.withAddresses]
  | list current => simp [sameParameters, emptied, SetList.sameParameters]
  | foreign inner => exact absurd rfl (builtin inner)

theorem sameParameters_renewed (builtin : ∀ inner, storage ≠ .foreign inner) :
    storage.sameParameters storage.renewed = true := by
  cases storage with
  | hash current =>
      simp [sameParameters, renewed, AddressHash.sameParameters, AddressHash.withAddresses]
  | list current => simp [sameParameters, renewed, SetList.sameParameters]
  | foreign inner => exact absurd rfl (builtin inner)

omit [ForeignStorage σ] in
theorem sameElements_renewed (builtin : ∀ inner, storage ≠ .foreign inner) :
    storage.SameElements storage.renewed := by
  cases storage with
  | hash current => exact (current.addresses_withAddresses _).symm
  | list current => rfl
  | foreign inner => exact absurd rfl (builtin inner)

end Storage

end NamedSets
