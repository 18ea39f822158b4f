import NamedSets.Address
import NamedSets.Attr.Tag

namespace NamedSets.Attr

inductive Tree where
  | value (tag : Tag) (payload : Bytes)
  | nest (tag : Tag) (items : List Tree)
deriving Repr

namespace Tree

/-- The four bytes in front of a payload of `length` bytes. -/
def header (tag : Tag) (length : Nat) : Bytes :=
  Bytes.little 2 (4 + length) ++ Bytes.little 2 tag.word

mutual

def size : Tree → Nat
  | value _ payload => 4 + Bytes.aligned payload.length
  | nest _ items => 4 + sizeAll items

def sizeAll : List Tree → Nat
  | [] => 0
  | item :: rest => item.size + sizeAll rest

end

mutual

def encode : Tree → Bytes
  | value tag payload => header tag payload.length ++ payload ++ Bytes.padding payload.length
  | nest tag items => header tag (sizeAll items) ++ encodeAll items

def encodeAll : List Tree → Bytes
  | [] => []
  | item :: rest => item.encode ++ encodeAll rest

end

def octet (number : BitVec 14) (value : UInt8) : Tree := .value { number } [value]

def word (number : BitVec 14) (value : UInt32) : Tree :=
  .value { number } (Bytes.little 4 value.toNat)

def networkHalf (number : BitVec 14) (value : UInt16) : Tree :=
  .value { number, network := true } (Bytes.big 2 value.toNat)

def networkWord (number : BitVec 14) (value : UInt32) : Tree :=
  .value { number, network := true } (Bytes.big 4 value.toNat)

def text (number : BitVec 14) (text : String) : Tree :=
  .value { number } (Bytes.ofText text ++ [0])

def block (number : BitVec 14) (items : List Tree) : Tree :=
  .nest { number, nested := true } items

def octetsNumber : Address → BitVec 14
  | .v4 _ => 1
  | .v6 _ => 2

/-- An address: a nest of one attribute, which tells the family by its number. -/
def address (number : BitVec 14) (address : Address) : Tree :=
  block number [.value { number := octetsNumber address, network := true } address.octets]

mutual

@[simp] theorem length_encode : (tree : Tree) → tree.encode.length = tree.size
  | value _ payload => by
      have fits := Bytes.le_aligned payload.length
      simp only [encode, header, size, List.length_append, Bytes.length_little,
        Bytes.length_padding]
      omega
  | nest _ items => by
      simp only [encode, header, size, List.length_append, Bytes.length_little,
        length_encodeAll items]

@[simp] theorem length_encodeAll : (trees : List Tree) → (encodeAll trees).length = sizeAll trees
  | [] => rfl
  | item :: rest => by
      simp only [encodeAll, sizeAll, List.length_append, length_encode item,
        length_encodeAll rest]

end

mutual

@[simp] theorem size_mod : (tree : Tree) → tree.size % 4 = 0
  | value _ payload => by
      have := Bytes.aligned_mod payload.length
      simp only [size]
      omega
  | nest _ items => by
      have := sizeAll_mod items
      simp only [size]
      omega

@[simp] theorem sizeAll_mod : (trees : List Tree) → sizeAll trees % 4 = 0
  | [] => rfl
  | item :: rest => by
      have := size_mod item
      have := sizeAll_mod rest
      simp only [sizeAll]
      omega

end

theorem encodeAll_append (first second : List Tree) :
    encodeAll (first ++ second) = encodeAll first ++ encodeAll second := by
  induction first with
  | nil => rfl
  | cons item rest ih => simp [encodeAll, ih]

theorem sizeAll_append (first second : List Tree) :
    sizeAll (first ++ second) = sizeAll first + sizeAll second := by
  induction first with
  | nil => simp [sizeAll]
  | cons item rest ih => simp [sizeAll, ih, Nat.add_assoc]

end Tree

end NamedSets.Attr
