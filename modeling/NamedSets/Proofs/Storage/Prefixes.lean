import Mathlib.Logic.Function.Basic
import NamedSets.Proofs.Storage.Parameters
import NamedSets.Proofs.Table.Slots
import NamedSets.Table.Elements

/-!
# Sets of prefixes

To those who use it a hash is a set of prefixes: it has an address exactly if an address with
the same leading bits was added, and since then none with these bits was deleted and the hash was
not cleared. The same history, kept in one map from addresses to numbers and another one back,
gives the elements of the hash with their sequence numbers.
-/

namespace NamedSets

namespace Address

variable {length : Nat} {first second : Address}

/-- Addresses of one family with the same leading bits. -/
def Agree (length : Nat) : Address → Address → Prop
  | v4 first, v4 second => ∀ i < length, first.getMsbD i = second.getMsbD i
  | v6 first, v6 second => ∀ i < length, first.getMsbD i = second.getMsbD i
  | _, _ => False

def network (length : Nat) : Address → Address
  | v4 word => v4 (keepPrefix word length)
  | v6 word => v6 (keepPrefix word length)

theorem keepPrefix_eq_iff {width : Nat} {first second : BitVec width} :
    keepPrefix first length = keepPrefix second length ↔
      ∀ i < length, first.getMsbD i = second.getMsbD i := by
  constructor
  · intro same i inside
    have bit := congrArg (·.getMsbD i) same
    simpa [getMsbD_keepPrefix, inside] using bit
  · intro agree
    apply BitVec.eq_of_getMsbD_eq
    intro i _
    rw [getMsbD_keepPrefix, getMsbD_keepPrefix]
    by_cases inside : i < length
    · rw [agree i inside]
    · simp [inside]

theorem network_eq_iff : first.network length = second.network length ↔
    first.Agree length second := by
  cases first <;> cases second <;> simp [network, Agree, keepPrefix_eq_iff]

end Address

namespace AddressHash

variable {hash changed : AddressHash} {family : Family} {width length : Nat} {address : Address}
  {kind : PacketChange}

/-! ## Lengths of prefixes -/

def prefixLength (hash : AddressHash) : Nat :=
  (hash.netmask.map UInt8.toNat).getD ((width? hash.family).getD 0)

def lengthAfter (length : Nat) : Datum → Nat
  | .netmask given => given.toNat
  | _ => length

/-- The length that create data choose: that of their last netmask, or of a whole address. -/
def chosenLength (width : Nat) (data : List Datum) : Nat := data.foldl lengthAfter width

theorem assignAll_length {data : List Datum} {parameters assigned : Parameters}
    (accepted : data.foldlM (Parameters.assign width) parameters = .ok assigned) :
    (assigned.netmask.map UInt8.toNat).getD width =
      data.foldl lengthAfter ((parameters.netmask.map UInt8.toNat).getD width) := by
  induction data generalizing parameters with
  | nil =>
      cases accepted
      rfl
  | cons datum rest ih =>
      rw [List.foldlM_cons] at accepted
      cases first : parameters.assign width datum with
      | error fault => simp [first, bind, Except.bind] at accepted
      | ok next =>
          rw [ih (by simpa [first, bind, Except.bind] using accepted), List.foldl_cons]
          congr 1
          cases datum with
          | netmask given =>
              simp only [Parameters.assign] at first
              split at first
              · cases first
                by_cases whole : given.toNat = width <;> simp [whole, lengthAfter]
              · contradiction
          | timeout seconds => contradiction
          | _ =>
              cases first
              rfl

theorem create_prefixLength {data : List Datum} (known : width? family = some width)
    (made : create family data = .ok hash) : hash.prefixLength = chosenLength width data := by
  simp only [create, known] at made
  split at made
  · contradiction
  · rename_i parameters assigned
    split at made
    · cases made
      rw [prefixLength, known]
      exact assignAll_length assigned
    · contradiction

/-! ## What addresses stand for -/

def otherFamily : Family → Fault
  | .ipv4 => .expectIpv4
  | _ => .expectIpv6

theorem element_of_family (same : address.family = hash.family) :
    hash.element address = .ok (address.network hash.prefixLength) := by
  cases address <;> simp only [Address.family] at same <;>
    simp [element, prefixLength, Address.network, ← same, width?]

theorem element_of_other (other : address.family ≠ hash.family) :
    hash.element address = .error (otherFamily hash.family) := by
  cases address <;> cases family : hash.family <;>
    simp_all [element, Address.family, otherFamily]

def addressOfData (hash : AddressHash) (data : List Datum) : Except Fault Address :=
  match data.foldlM hash.nameAddress none with
  | .error fault => .error fault
  | .ok none => .error .addressMissing
  | .ok (some address) => .ok address

theorem elementOfData_eq (hash : AddressHash) (data : List Datum) :
    hash.elementOfData data = (hash.addressOfData data).bind hash.element := by
  unfold elementOfData addressOfData
  split <;> simp_all [Except.bind]

/-! ## Histories -/

inductive Source where
  | packet (query : Query)
  | data (data : List Datum)

def addressOf (hash : AddressHash) : Source → Except Fault Address
  | .packet query => .ok query.address
  | .data data => hash.addressOfData data

inductive Action where
  | change (kind : PacketChange) (source : Source)
  | clear
  | resize (again : Bool)

def test (hash : AddressHash) : Source → Except Fault Bool
  | .packet query => hash.testPacket query
  | .data data => (hash.elementOfData data).map hash.contains

def perform (hash : AddressHash) : Action → Except Fault AddressHash
  | .change kind (.packet query) => hash.changePacket kind query
  | .change .add (.data data) => do hash.insert (← hash.elementOfData data)
  | .change .delete (.data data) => do hash.erase (← hash.elementOfData data)
  | .clear => .ok hash.clear
  | .resize again => hash.resize again

def after (hash : AddressHash) (action : Action) : AddressHash :=
  match hash.perform action with
  | .ok changed => changed
  | .error _ => hash

def run (hash : AddressHash) (history : List Action) : AddressHash := history.foldl after hash

inductive Deed where
  | added (address : Address)
  | deleted (address : Address)
  | cleared

def Deed.ofChange : PacketChange → Address → Deed
  | .add => added
  | .delete => deleted

def deed? (hash : AddressHash) (action : Action) : Option Deed :=
  match action, hash.perform action with
  | .change kind source, .ok _ => (hash.addressOf source).toOption.map (Deed.ofChange kind)
  | .clear, .ok _ => some .cleared
  | _, _ => none

def deeds (hash : AddressHash) : List Action → List Deed
  | [] => []
  | action :: rest => (hash.deed? action).toList ++ (hash.after action).deeds rest

def edit (hash : AddressHash) : PacketChange → Address → Except Fault AddressHash
  | .add => hash.insert
  | .delete => hash.erase

theorem test_eq (hash : AddressHash) (source : Source) :
    hash.test source =
      (hash.addressOf source).bind fun address => (hash.element address).map hash.contains := by
  cases source with
  | packet query => rfl
  | data data =>
      simp only [test, addressOf, elementOfData_eq]
      cases hash.addressOfData data <;> rfl

theorem perform_change (hash : AddressHash) (kind : PacketChange) (source : Source) :
    hash.perform (.change kind source) =
      (hash.addressOf source).bind fun address => (hash.element address).bind (hash.edit kind) := by
  cases source with
  | packet query =>
      simp only [perform, changePacket, addressOf, Except.bind]
      cases hash.element query.address <;> cases kind <;> rfl
  | data data =>
      cases kind <;> simp only [perform, addressOf, elementOfData_eq, bind] <;>
        cases hash.addressOfData data <;> rfl

/-- What a successful action is. -/
theorem perform_cases {action : Action} (done : hash.perform action = .ok changed) :
    (∃ kind source address element, action = .change kind source ∧
      hash.addressOf source = .ok address ∧ hash.element address = .ok element ∧
      hash.edit kind element = .ok changed) ∨
    (action = .clear ∧ changed = hash.clear) ∨
    ∃ again, action = .resize again ∧ hash.resize again = .ok changed := by
  cases action with
  | change kind source =>
      rw [perform_change] at done
      cases named : hash.addressOf source with
      | error fault => simp [named, Except.bind] at done
      | ok address =>
          cases kept : hash.element address with
          | error fault => simp [named, kept, Except.bind] at done
          | ok element =>
              simp only [named, kept, Except.bind] at done
              exact .inl ⟨kind, source, address, element, rfl, named, kept, done⟩
  | clear =>
      cases done
      exact .inr (.inl ⟨rfl, rfl⟩)
  | resize again => exact .inr (.inr ⟨again, rfl, done⟩)

/-- Nothing that is done to a hash changes what counts of an address. -/
theorem perform_frame {action : Action} (done : hash.perform action = .ok changed) :
    changed.family = hash.family ∧ changed.netmask = hash.netmask := by
  obtain ⟨kind, -, -, element, -, -, -, edited⟩ | ⟨-, rfl⟩ | ⟨again, -, grown⟩ := perform_cases done
  · cases kind with
    | add =>
        obtain ⟨-, -, -, rfl⟩ := insert_ok edited
        exact ⟨rfl, rfl⟩
    | delete =>
        rw [erase_ok edited]
        exact ⟨rfl, rfl⟩
  · exact ⟨rfl, rfl⟩
  · obtain ⟨-, rfl⟩ := resize_ok grown
    exact ⟨rfl, rfl⟩

theorem contains_of_erase (accepted : hash.erase address = .ok changed) :
    hash.contains address = true := by
  unfold erase at accepted
  split at accepted
  · assumption
  · contradiction

theorem perform_edit {action : Action} (done : hash.perform action = .ok changed) :
    ∃ kind, hash.Edit kind changed := by
  obtain ⟨kind, -, address, element, -, -, kept, edited⟩ | ⟨-, rfl⟩ | ⟨again, -, grown⟩ :=
    perform_cases done
  · cases kind with
    | add => exact ⟨.add, .insert edited (element_element kept)⟩
    | delete => exact ⟨.delete, .erase edited⟩
  · exact ⟨.delete, .clear⟩
  · exact ⟨.add, .resize grown⟩

/-! ## What a history leaves -/

def Deed.Removes (length : Nat) (address : Address) : Deed → Prop
  | added _ => False
  | deleted other => other.Agree length address
  | cleared => True

/-- An address with the same leading bits was added, and none was removed since. -/
def Remembers (length : Nat) (address : Address) (deeds : List Deed) : Prop :=
  ∃ earlier other later, deeds = earlier ++ .added other :: later ∧
    other.Agree length address ∧ ∀ deed ∈ later, ¬ deed.Removes length address

theorem not_remembers_nil : ¬ Remembers length address [] := by
  rintro ⟨earlier, other, later, same, -⟩
  simp at same

/-- What the last deed does to what is remembered. -/
theorem remembers_append {deeds : List Deed} {last : Deed} :
    Remembers length address (deeds ++ [last]) ↔
      (∃ other, last = .added other ∧ other.Agree length address) ∨
        (Remembers length address deeds ∧ ¬ last.Removes length address) := by
  constructor
  · rintro ⟨earlier, other, later, same, agree, kept⟩
    rcases List.eq_nil_or_concat later with rfl | ⟨before, final, rfl⟩
    · exact .inl ⟨other, List.singleton_injective (List.append_inj' same rfl).2, agree⟩
    · rw [List.concat_eq_append, ← List.cons_append, ← List.append_assoc] at same
      obtain ⟨rfl, final⟩ := List.append_inj' same rfl
      cases final
      exact .inr ⟨⟨earlier, other, before, rfl, agree, fun deed among =>
        kept deed (by simp [among])⟩, kept _ (by simp)⟩
  · rintro (⟨other, rfl, agree⟩ | ⟨⟨earlier, other, later, rfl, agree, kept⟩, stays⟩)
    · exact ⟨deeds, other, [], rfl, agree, by simp⟩
    · refine ⟨earlier, other, later ++ [last], by simp, agree, fun deed among => ?_⟩
      rcases List.mem_append.mp among with before | final
      · exact kept deed before
      · rw [List.mem_singleton.mp final]
        exact stays

/-- One map from addresses to sequence numbers, one back, and a counter. -/
structure Index where
  numbers : Address → Option Nat
  addresses : Nat → Option Address
  next : Nat

namespace Index

def empty : Index where
  numbers _ := none
  addresses _ := none
  next := 0

def insert (index : Index) (address : Address) : Index where
  numbers := Function.update index.numbers address (some index.next)
  addresses := Function.update index.addresses index.next (some address)
  next := index.next + 1

def remove (index : Index) (address : Address) : Index :=
  match index.numbers address with
  | none => index
  | some number => { index with
      numbers := Function.update index.numbers address none
      addresses := Function.update index.addresses number none }

def clear (index : Index) : Index := { empty with next := index.next }

def record (length : Nat) (index : Index) : Deed → Index
  | .added address => index.insert (address.network length)
  | .deleted address => index.remove (address.network length)
  | .cleared => index.clear

structure Describes (index : Index) (hash : AddressHash) : Prop where
  numbers : ∀ address number,
    index.numbers address = some number ↔ (number, address) ∈ hash.elements
  addresses : ∀ number address,
    index.addresses number = some address ↔ (number, address) ∈ hash.elements
  next : index.next = hash.nextSequence

end Index

theorem contains_iff : hash.contains address = true ↔ ∃ number, (number, address) ∈ hash.elements := by
  simp [contains]

variable {index : Index}

theorem Index.Describes.insert (describes : index.Describes hash) (valid : hash.Valid)
    (accepted : hash.insert address = .ok changed) : (index.insert address).Describes changed := by
  obtain ⟨fresh, -, -, rfl⟩ := insert_ok accepted
  have absent (number : Nat) : (number, address) ∉ hash.elements := fun present => by
    rw [contains_iff.mpr ⟨number, present⟩] at fresh
    contradiction
  have unused (other : Address) : (hash.nextSequence, other) ∉ hash.elements := fun present =>
    Nat.lt_irrefl _ (valid.below _ present)
  refine ⟨fun other number => ?_, fun number other => ?_, by simp [Index.insert, describes.next]⟩
  · by_cases same : other = address
    · subst same
      simp [Index.insert, absent, describes.next, eq_comm]
    · simp [Index.insert, describes.numbers, same]
  · by_cases same : number = index.next
    · subst same
      simp [Index.insert, describes.next, unused, eq_comm]
    · have other : number ≠ hash.nextSequence := describes.next ▸ same
      simp [Index.insert, Function.update_of_ne same, describes.addresses, other]

theorem Index.Describes.remove (describes : index.Describes hash)
    (accepted : hash.erase address = .ok changed) : (index.remove address).Describes changed := by
  obtain ⟨number, present⟩ := contains_iff.mp (contains_of_erase accepted)
  have numbered := (describes.numbers address number).mpr present
  have removed : index.remove address = { index with
      numbers := Function.update index.numbers address none
      addresses := Function.update index.addresses number none } := by
    simp only [Index.remove, numbered]
  rw [removed, erase_ok accepted]
  refine ⟨fun other found => ?_, fun found other => ?_, describes.next⟩
  · by_cases same : other = address
    · subst same
      simp
    · simp [same, describes.numbers]
  · by_cases same : found = number
    · -- The number was the number of the address alone.
      subst same
      have alone (stored : (found, other) ∈ hash.elements) : other = address := by
        have here := (describes.addresses found address).mpr present
        have there := (describes.addresses found other).mpr stored
        exact Option.some.inj (there.symm.trans here)
      simp only [Function.update_self, reduceCtorEq, List.mem_filter, bne_iff_ne, false_iff,
        not_and, not_not]
      exact alone
    · have apart (stored : (found, other) ∈ hash.elements) : other ≠ address := by
        rintro rfl
        have there := (describes.numbers other found).mpr stored
        exact same (Option.some.inj (there.symm.trans numbered))
      simp only [Function.update_of_ne same, describes.addresses, List.mem_filter, bne_iff_ne,
        iff_self_and]
      exact apart

theorem Index.Describes.clear (describes : index.Describes hash) :
    index.clear.Describes hash.clear :=
  ⟨by simp [Index.clear, Index.empty, AddressHash.clear],
    by simp [Index.clear, Index.empty, AddressHash.clear], describes.next⟩

/-- The two maps are inverse to each other, and their numbers lie below the counter. -/
theorem Index.Describes.inverse (describes : index.Describes hash) (valid : hash.Valid)
    (address : Address) (number : Nat) :
    (index.numbers address = some number ↔ index.addresses number = some address) ∧
      (index.numbers address = some number → number < index.next) := by
  refine ⟨(describes.numbers address number).trans (describes.addresses number address).symm,
    fun numbered => ?_⟩
  rw [describes.next]
  exact valid.below _ ((describes.numbers address number).mp numbered)

/-! ## Runs -/

structure Tracks (length : Nat) (hash : AddressHash) (family : Family) (past : List Deed) : Prop where
  valid : hash.Valid
  regular : hash.Regular family
  chosen : hash.prefixLength = length
  described : (past.foldl (Index.record length) .empty).Describes hash
  stored : ∀ address, hash.contains (address.network length) = true ↔
    Remembers length address past

theorem contains_insert {element other : Address} (accepted : hash.insert element = .ok changed) :
    changed.contains other = true ↔ hash.contains other = true ∨ element = other := by
  obtain ⟨-, -, -, rfl⟩ := insert_ok accepted
  simp [contains_iff, exists_or, @eq_comm _ element]

theorem contains_erase {element other : Address} (accepted : hash.erase element = .ok changed) :
    changed.contains other = true ↔ hash.contains other = true ∧ element ≠ other := by
  rw [erase_ok accepted]
  simp [contains_iff, @eq_comm _ element]

theorem Tracks.perform {past : List Deed} {action : Action}
    (tracks : hash.Tracks length family past) (done : hash.perform action = .ok changed) :
    changed.Tracks length family (past ++ (hash.deed? action).toList) := by
  obtain ⟨kind, edit⟩ := perform_edit done
  have valid := tracks.valid.edit edit
  have regular := tracks.regular.edit edit
  have frame := perform_frame done
  have kept : changed.prefixLength = length := by
    rw [← tracks.chosen, prefixLength, prefixLength, frame.1, frame.2]
  obtain ⟨kind, source, address, element, rfl, named, stands, edited⟩ | ⟨rfl, rfl⟩ |
    ⟨again, rfl, grown⟩ := perform_cases done
  · have deed : hash.deed? (.change kind source) = some (.ofChange kind address) := by
      simp only [deed?, done, named, Except.toOption, Option.map_some]
    have whole : element = address.network length := by
      by_cases same : address.family = hash.family
      · rw [element_of_family same, tracks.chosen] at stands
        exact (Except.ok.inj stands).symm
      · rw [element_of_other same] at stands
        contradiction
    subst whole
    rw [deed, Option.toList_some]
    cases kind with
    | add =>
        refine ⟨valid, regular, kept, ?_, fun other => ?_⟩
        · rw [List.foldl_append]
          exact tracks.described.insert tracks.valid edited
        · rw [contains_insert edited, tracks.stored, remembers_append, Address.network_eq_iff]
          simp [Deed.ofChange, Deed.Removes, or_comm]
    | delete =>
        refine ⟨valid, regular, kept, ?_, fun other => ?_⟩
        · rw [List.foldl_append]
          exact tracks.described.remove edited
        · rw [contains_erase edited, tracks.stored, remembers_append, Ne, Address.network_eq_iff]
          simp [Deed.ofChange, Deed.Removes]
  · refine ⟨valid, regular, kept, ?_, fun other => ?_⟩
    · rw [List.foldl_append]
      exact tracks.described.clear
    · change [].any _ = true ↔ Remembers length other (past ++ [Deed.cleared])
      rw [remembers_append]
      simp [Deed.Removes]
  · have none : hash.deed? (.resize again) = none := rfl
    obtain ⟨-, rfl⟩ := resize_ok grown
    rw [none, Option.toList_none, List.append_nil]
    exact ⟨valid, regular, kept, ⟨tracks.described.numbers, tracks.described.addresses,
      tracks.described.next⟩, tracks.stored⟩

theorem deed?_of_error {action : Action} {fault : Fault}
    (failed : hash.perform action = .error fault) : hash.deed? action = none := by
  unfold deed?
  split <;> simp_all

theorem Tracks.run {past : List Deed} (tracks : hash.Tracks length family past)
    (history : List Action) :
    (hash.run history).Tracks length family (past ++ hash.deeds history) := by
  induction history generalizing hash past with
  | nil => simpa [AddressHash.run, deeds] using tracks
  | cons action rest ih =>
      have step : (hash.after action).Tracks length family (past ++ (hash.deed? action).toList) := by
        cases result : hash.perform action with
        | error fault => simpa [after, result, deed?_of_error result] using tracks
        | ok changed => simpa [after, result] using tracks.perform result
      rw [deeds, ← List.append_assoc]
      exact ih step

theorem create_tracks {data : List Datum} (known : width? family = some width)
    (made : create family data = .ok hash) :
    hash.Tracks (chosenLength width data) family [] := by
  have blank : hash.elements = [] ∧ hash.nextSequence = 0 := by
    simp only [create, known] at made
    split at made
    · contradiction
    · split at made
      · cases made
        exact ⟨rfl, rfl⟩
      · contradiction
  refine ⟨create_valid made, create_regular made, create_prefixLength known made,
    ⟨by simp [Index.empty, blank.1], by simp [Index.empty, blank.1], blank.2.symm⟩, fun address => ?_⟩
  simp [contains, blank.1, not_remembers_nil]

/-- A hash acts as a set of prefixes. -/
theorem acts_as_prefixes {data : List Datum} (known : width? family = some width)
    (made : create family data = .ok hash) (history : List Action) :
    let length := chosenLength width data
    let current := hash.run history
    let past := hash.deeds history
    let index := past.foldl (Index.record length) .empty
    index.Describes current ∧
      (∀ address number,
        (index.numbers address = some number ↔ index.addresses number = some address) ∧
        (index.numbers address = some number → number < index.next)) ∧
      current.elements.length ≤ current.maxElements.toNat ∧
      current.elements.length ≤ current.hashSize ∧
      (∃ exponent, current.hashSize = Nat.pow 2 exponent) ∧
      64 ≤ current.hashSize ∧ current.hashSize ≤ Nat.pow 2 31 ∧
      ∀ source address, current.addressOf source = .ok address →
        (address.family = family → ∃ answer, current.test source = .ok answer ∧
          (answer = true ↔ Remembers length address past)) ∧
        (address.family ≠ family → current.test source = .error (otherFamily family) ∧
          ∀ kind, current.perform (.change kind source) = .error (otherFamily family) ∧
            current.after (.change kind source) = current) := by
  intro length current past index
  have tracks : current.Tracks length family past := (create_tracks known made).run history
  refine ⟨tracks.described, tracks.described.inverse tracks.valid, tracks.valid.bounded,
    tracks.regular.room, tracks.regular.size, tracks.regular.large, tracks.regular.small,
    fun source address named => ⟨fun same => ?_, fun other => ?_⟩⟩
  · rw [← tracks.regular.sameFamily] at same
    refine ⟨_, ?_, tracks.stored address⟩
    rw [test_eq, named, ← tracks.chosen]
    simp only [Except.bind, element_of_family same, Except.map]
  · rw [← tracks.regular.sameFamily] at other
    have refused := element_of_other other
    rw [tracks.regular.sameFamily] at refused
    have unchanged (kind : PacketChange) :
        current.perform (.change kind source) = .error (otherFamily family) := by
      rw [perform_change, named]
      simp only [Except.bind, refused]
    refine ⟨?_, fun kind => ⟨unchanged kind, by rw [after, unchanged kind]⟩⟩
    rw [test_eq, named]
    simp only [Except.bind, refused, Except.map]

def grouped : AddressHash where
  family := .ipv4
  elements := []
  nextSequence := 0
  hashSize := 1024
  maxElements := 2
  netmask := some 24

def addingAddress (word : BitVec 32) : Action := .change .add (.data [.ip (.v4 word)])

def grouping : List Action :=
  [addingAddress 0xc0a80107, addingAddress 0x0a000001, .resize false,
    .change .delete (.data [.ip (.v4 0x0a0000c8)])]

theorem acts_as_prefixes_grouped :
    create .ipv4 [.netmask 24, .maxElements 2] = .ok grouped ∧
      (grouped.run grouping).elements = [(0, .v4 0xc0a80100)] ∧
      (∃ answer, (grouped.run grouping).test (.data [.ip (.v4 0xc0a801c8)]) = .ok answer ∧
        (answer = true ↔ Remembers 24 (.v4 0xc0a801c8) (grouped.deeds grouping))) ∧
      (grouped.run grouping).test (.data [.ip (.v6 1)]) = .error .expectIpv4 := by
  have made : create .ipv4 [.netmask 24, .maxElements 2] = .ok grouped := by decide +kernel
  obtain ⟨-, -, -, -, -, -, -, tests⟩ := acts_as_prefixes rfl made grouping
  refine ⟨made, by decide +kernel, ?_, ?_⟩
  · exact (tests (.data [.ip (.v4 0xc0a801c8)]) (.v4 0xc0a801c8) rfl).1 rfl
  · exact ((tests (.data [.ip (.v6 1)]) (.v6 1) rfl).2 (by decide)).1

end AddressHash

/-! ## In a table -/

namespace Table

variable {σ : Type} [ForeignStorage σ] {table : Table σ} {id : Nat} {entry : Entry σ}
  {hash : AddressHash}

def perform (table : Table σ) (id : Nat) : AddressHash.Action → Table σ × Except Fault Unit
  | .change kind (.packet query) => table.changePacket id kind query
  | .change .add (.data data) => table.addElement id data
  | .change .delete (.data data) => table.deleteElement id data
  | .clear => (table.flushSlot id, .ok ())
  | .resize again => table.resize id again

def Meant (entry : Entry σ) : AddressHash.Action → Prop
  | .change _ (.packet query) => entry.accepts query
  | _ => True

theorem perform_hash {action : AddressHash.Action} (found : table.get? id = some entry)
    (stored : entry.storage = .hash hash) (meant : Meant entry action) :
    table.perform id action = table.storing id (hash.perform action) .hash := by
  match action with
  | .change kind (.packet query) =>
      have accepted : entry.accepts query = true := meant
      cases depth : table.capacity <;>
        simp only [perform, changePacket, changePacketWithin, AddressHash.perform, found, accepted,
          stored, if_true, storing, depth] <;>
        cases hash.changePacket kind query <;> rfl
  | .change .add (.data data) | .change .delete (.data data) =>
      simp only [perform, addElement, deleteElement, found, stored, AddressHash.perform]
  | .clear => simp only [perform, flushSlot, found, stored, AddressHash.perform, storing]
  | .resize again =>
      simp only [perform, resize, found, stored, Storage.resize, AddressHash.perform, storing]
      cases hash.resize again with
      | ok grown => rfl
      | error fault => rw [setStorage_self (storage_of_get found stored)]

/-- What is done to a hash in a slot leaves there what it leaves of the hash. -/
theorem run_hash {history : List AddressHash.Action} (found : table.get? id = some entry)
    (stored : entry.storage = .hash hash) (meant : ∀ action ∈ history, Meant entry action) :
    (history.foldl (fun table action => (table.perform id action).1) table).get? id =
      some { entry with storage := .hash (hash.run history) } := by
  induction history generalizing table entry hash with
  | nil =>
      rw [AddressHash.run, List.foldl_nil, List.foldl_nil, found, ← stored]
  | cons action rest ih =>
      have performed := perform_hash found stored (meant action List.mem_cons_self)
      have step : (table.perform id action).1.get? id =
          some { entry with storage := .hash (hash.after action) } := by
        rw [performed, AddressHash.after]
        cases hash.perform action with
        | error fault => rw [storing, found, ← stored]
        | ok changed =>
            rw [storing, setStorage, get_modify, if_pos rfl, found, Option.map_some]
      have others := ih step rfl fun later among => meant later (List.mem_cons_of_mem _ among)
      exact others

end Table

end NamedSets
