import NamedSets.Datum.Basic
import NamedSets.Message.Argument
import NamedSets.Query

/-!
# Address hashes

The storage of the type `hash:ip`: addresses of one family, of which only the leading
bits count if there is a netmask. Each element has a sequence number that grows with
every insertion and is never used again, so that a listing can resume at a number
whatever was deleted in between.
-/

namespace NamedSets

structure AddressHash where
  family : Family
  /-- The elements by increasing sequence number. -/
  elements : List (Nat × Address)
  nextSequence : Nat
  /-- The number of elements after which the table has to grow. -/
  hashSize : Nat
  maxElements : UInt32
  /-- The number of leading bits that count, unless all do. -/
  netmask : Option UInt8
deriving DecidableEq

namespace AddressHash

def leastHashSize : Nat := 64
def greatestHashSize : Nat := 0x80000000

def width? : Family → Option Nat
  | .unspecified => none
  | .ipv4 => some 32
  | .ipv6 => some 128

/-! ## Creation -/

structure Parameters where
  hashSize : UInt32 := 1024
  maxElements : UInt32 := 65536
  netmask : Option UInt8 := none

/-- The parameters after one more datum, for addresses of `width` bits. -/
def Parameters.assign (width : Nat) (parameters : Parameters) :
    Datum → Except Fault Parameters
  | .hashSize size => .ok { parameters with hashSize := max size (.ofNat leastHashSize) }
  | .maxElements count => .ok { parameters with maxElements := count }
  | .netmask length =>
      if 1 ≤ length.toNat ∧ length.toNat ≤ width then
        .ok { parameters with netmask := if length.toNat = width then none else some length }
      else .error .invalidNetmask
  | .timeout _ => .error .timeoutUnsupported
  | _ => .ok parameters

/-- The least power of two that is not below a number. -/
def powerOfTwoFrom (number : Nat) : Nat :=
  if number ≤ 1 then 1 else Nat.pow 2 (Nat.log2 (number - 1) + 1)

theorem le_powerOfTwoFrom (number : Nat) : number ≤ powerOfTwoFrom number := by
  unfold powerOfTwoFrom
  split
  · assumption
  · have below : number - 1 < Nat.pow 2 (Nat.log2 (number - 1) + 1) := Nat.lt_log2_self
    omega

theorem powerOfTwoFrom_le {number exponent : Nat} (enough : number ≤ Nat.pow 2 exponent) :
    powerOfTwoFrom number ≤ Nat.pow 2 exponent := by
  unfold powerOfTwoFrom
  split
  · exact Nat.one_le_two_pow
  · have inside : number - 1 < Nat.pow 2 exponent := by omega
    have below : Nat.log2 (number - 1) < exponent := (Nat.log2_lt (by omega)).mpr inside
    exact Nat.pow_le_pow_right (by decide) below

theorem exists_powerOfTwoFrom (number : Nat) :
    ∃ exponent, powerOfTwoFrom number = Nat.pow 2 exponent := by
  unfold powerOfTwoFrom
  split
  · exact ⟨0, rfl⟩
  · exact ⟨_, rfl⟩

@[simp] theorem powerOfTwoFrom_pow (exponent : Nat) :
    powerOfTwoFrom (Nat.pow 2 exponent) = Nat.pow 2 exponent :=
  Nat.le_antisymm (powerOfTwoFrom_le (Nat.le_refl _)) (le_powerOfTwoFrom _)

def create (family : Family) (data : List Datum) : Except Fault AddressHash :=
  match width? family with
  | none => .error .familyRequired
  | some width =>
      match data.foldlM (Parameters.assign width) {} with
      | .error fault => .error fault
      | .ok parameters =>
          let hashSize := powerOfTwoFrom parameters.hashSize.toNat
          if hashSize ≤ greatestHashSize then
            .ok {
              family, elements := [], nextSequence := 0, hashSize
              maxElements := parameters.maxElements, netmask := parameters.netmask }
          else .error .hashTooLarge

/-! ## Elements -/

/-- The element that an address stands for; an address of another family has none. -/
def element (hash : AddressHash) (address : Address) : Except Fault Address :=
  match hash.family, address with
  | .ipv4, .v4 word => .ok (.v4 (Address.keepPrefix word ((hash.netmask.map UInt8.toNat).getD 32)))
  | .ipv6, .v6 word => .ok (.v6 (Address.keepPrefix word ((hash.netmask.map UInt8.toNat).getD 128)))
  | .ipv4, _ => .error .expectIpv4
  | _, _ => .error .expectIpv6

/-- The address that element data name so far, after one more datum. Ranges are refused,
and so is a prefix length other than that of a whole address. -/
def nameAddress (hash : AddressHash) (named : Option Address) :
    Datum → Except Fault (Option Address)
  | .ip address => .ok (some address)
  | .ipTo _ => .error .rangeUnsupported
  | .cidr length =>
      if some length.toNat = width? hash.family then .ok named else .error .rangeUnsupported
  | .timeout _ => .error .timeoutUnsupported
  | _ => .ok named

def elementOfData (hash : AddressHash) (data : List Datum) : Except Fault Address :=
  match data.foldlM hash.nameAddress none with
  | .error fault => .error fault
  | .ok none => .error .addressMissing
  | .ok (some address) => hash.element address

def contains (hash : AddressHash) (element : Address) : Bool :=
  hash.elements.any (·.2 == element)

def insert (hash : AddressHash) (element : Address) : Except Fault AddressHash :=
  if hash.contains element then .error .elementExists
  else if hash.maxElements.toNat ≤ hash.elements.length then .error .hashFull
  else if hash.hashSize ≤ hash.elements.length then .error .mustResize
  else .ok { hash with
    elements := hash.elements ++ [(hash.nextSequence, element)]
    nextSequence := hash.nextSequence + 1 }

def erase (hash : AddressHash) (element : Address) : Except Fault AddressHash :=
  if hash.contains element then
    .ok { hash with elements := hash.elements.filter (·.2 != element) }
  else .error .noSuchElement

def clear (hash : AddressHash) : AddressHash := { hash with elements := [] }

/-- Doubles the size of the table, or takes it times four if that did not help before. -/
def resize (hash : AddressHash) (again : Bool) : Except Fault AddressHash :=
  let hashSize := hash.hashSize * (if again then 4 else 2)
  if hashSize ≤ greatestHashSize then .ok { hash with hashSize } else .error .hashFull

def sameParameters (hash other : AddressHash) : Bool :=
  hash.hashSize = other.hashSize && hash.maxElements = other.maxElements &&
    hash.netmask = other.netmask

/-! ## Description -/

def description (hash : AddressHash) (memory : UInt32) : List Attr.Tree :=
  [(Datum.hashSize (.ofNat hash.hashSize)).tree, (Datum.maxElements hash.maxElements).tree] ++
  (hash.netmask.map fun length => (Datum.netmask length).tree).toList ++
  [ Attr.Tree.networkWord Datum.Kind.elements.number (.ofNat hash.elements.length),
    Attr.Tree.networkWord Datum.Kind.memorySize.number memory ]

/-- The elements from a sequence number on, each as a data block and with the number at
which a listing resumes behind it. -/
def listing (hash : AddressHash) (start : Nat) : List (Option Attr.Tree × Nat) :=
  hash.elements.filter (start ≤ ·.1) |>.map fun (sequence, address) =>
    (some (Message.Argument.dataBlock [.ip address]), sequence + 1)

end AddressHash

end NamedSets
