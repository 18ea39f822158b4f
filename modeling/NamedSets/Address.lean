import NamedSets.Bytes
import NamedSets.Family

namespace NamedSets

inductive Address where
  | v4 (word : BitVec 32)
  | v6 (word : BitVec 128)
deriving DecidableEq, Repr

namespace Address

def family : Address → Family
  | v4 _ => .ipv4
  | v6 _ => .ipv6

def octets : Address → Bytes
  | v4 word => Bytes.big 4 word.toNat
  | v6 word => Bytes.big 16 word.toNat

def ofOctets? (octets : Bytes) : Option Address :=
  match octets.length with
  | 4 => some (.v4 (BitVec.ofNat 32 (Bytes.ofBig octets)))
  | 16 => some (.v6 (BitVec.ofNat 128 (Bytes.ofBig octets)))
  | _ => none

def prefixMask (width length : Nat) : BitVec width :=
  BitVec.allOnes width <<< (width - length)

/-- The leading `length` bits of a word, the others cleared. -/
def keepPrefix {width : Nat} (word : BitVec width) (length : Nat) : BitVec width :=
  word &&& prefixMask width length

theorem getMsbD_keepPrefix {width : Nat} (word : BitVec width) (length i : Nat) :
    (keepPrefix word length).getMsbD i = (word.getMsbD i && decide (i < length)) := by
  by_cases inside : i < width
  · simp only [keepPrefix, prefixMask, BitVec.getMsbD_and, BitVec.getMsbD_shiftLeft]
    by_cases early : i < length
    · have shifted : i + (width - length) < width := by omega
      simp [early, BitVec.getMsbD_allOnes, shifted]
    · have shifted : ¬ i + (width - length) < width := by omega
      simp [early, BitVec.getMsbD_allOnes, shifted]
  · have none : word.getMsbD i = false := BitVec.getMsbD_of_ge _ _ (by omega)
    have outside : (keepPrefix word length).getMsbD i = false :=
      BitVec.getMsbD_of_ge _ _ (by omega)
    simp [none, outside]

/-- Bits that are cleared stay cleared. -/
@[simp] theorem keepPrefix_keepPrefix {width : Nat} (word : BitVec width) (length : Nat) :
    keepPrefix (keepPrefix word length) length = keepPrefix word length := by
  simp only [keepPrefix, BitVec.and_assoc, BitVec.and_self]

@[simp] theorem ofOctets_octets (address : Address) :
    ofOctets? address.octets = some address := by
  cases address with
  | v4 word =>
      have bound : word.toNat % 4294967296 = word.toNat := Nat.mod_eq_of_lt word.isLt
      simp [ofOctets?, octets, bound]
  | v6 word =>
      have bound : word.toNat % 340282366920938463463374607431768211456 = word.toNat :=
        Nat.mod_eq_of_lt word.isLt
      simp [ofOctets?, octets, bound]

end Address

end NamedSets
