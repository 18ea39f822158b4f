import NamedSets.Datum.Reader
import NamedSets.Message.Argument
import NamedSets.Proofs.Attr.Reading

namespace NamedSets

theorem Bytes.text_ofText (text : String) : text? (ofText text) = some text := by
  have same : (ofText text).toByteArray = text.toByteArray := by
    apply ByteArray.ext
    simp [ofText, String.toUTF8]
  have valid := text.isValidUTF8
  simp only [text?, same, String.fromUTF8?, dif_pos valid]
  rfl

theorem SetName.takeWhile_append (name : SetName) (rest : Bytes) :
    (Bytes.ofText name.text ++ rest).takeWhile (· != 0) =
      Bytes.ofText name.text ++ rest.takeWhile (· != 0) := by
  rw [List.takeWhile_append_of_pos]
  intro byte present
  simp only [bne_iff_ne, ne_eq]
  rintro rfl
  exact name.noNul present

theorem SetName.takeWhile_terminated (name : SetName) (rest : Bytes) :
    (Bytes.ofText name.text ++ 0 :: rest).takeWhile (· != 0) = Bytes.ofText name.text := by
  rw [takeWhile_append]
  simp

/-- A name is read back from a field in which a zero follows it. -/
theorem SetName.ofField_terminated (name : SetName) (rest : Bytes) :
    ofField (Bytes.ofText name.text ++ 0 :: rest) = .ok name := by
  simp only [ofField, name.takeWhile_terminated rest, Bytes.text_ofText, name.ofText_text]

namespace Datum

open Attr (Reads Raw Tree)

variable {tag : Attr.Tag} {payload rest : Bytes} {datum : Datum}

theorem reads_exactly (tag : Attr.Tag) {width : Nat} {make : Bytes → Except Fault Datum}
    (long : payload.length = width) (made : make payload = .ok datum) :
    Reads (exactly width make) { tag, payload } (some datum) := by
  intro rest
  subst long
  refine ⟨payload.length, Bytes.le_aligned _, ?_⟩
  simp only [exactly, Raw.header, if_true, List.take_left, made]

theorem reads_octet (make : UInt8 → Datum) (value : UInt8) :
    Reads (octet make) { tag, payload := [value] } (some (make value)) :=
  reads_exactly tag rfl (by simp [Bytes.ofLittle])

theorem reads_word (make : UInt32 → Datum) (value : UInt32) :
    Reads (word make) { tag, payload := Bytes.little 4 value.toNat } (some (make value)) :=
  reads_exactly tag (Bytes.length_little 4 value.toNat) (by simp)

theorem reads_network {width number : Nat} (make : Nat → Datum)
    (short : number < Nat.pow 256 width) (marked : tag.network = true) :
    Reads (network width make) { tag, payload := Bytes.big width number }
      (some (make number)) := by
  intro rest
  refine reads_exactly tag (Bytes.length_big width number) ?_ rest
  simp only [Raw.header, if_pos marked, Bytes.ofBig_big, Nat.mod_eq_of_lt short]

theorem reads_networkHalf (make : UInt16 → Datum) (value : UInt16) (marked : tag.network = true) :
    Reads (networkHalf make) { tag, payload := Bytes.big 2 value.toNat }
      (some (make value)) := by
  have short : value.toNat < Nat.pow 256 2 := value.toNat_lt
  have read := reads_network (fun number => make (.ofNat number)) short marked
  rwa [UInt16.ofNat_toNat] at read

theorem reads_networkWord (make : UInt32 → Datum) (value : UInt32) (marked : tag.network = true) :
    Reads (networkWord make) { tag, payload := Bytes.big 4 value.toNat }
      (some (make value)) := by
  have short : value.toNat < Nat.pow 256 4 := value.toNat_lt
  have read := reads_network (fun number => make (.ofNat number)) short marked
  rwa [UInt32.ofNat_toNat] at read

theorem reads_setName (make : SetName → Datum) (name : SetName) :
    Reads (setName make) { tag, payload := Bytes.ofText name.text ++ [0] }
      (some (make name)) := by
  intro rest
  refine ⟨_, Bytes.le_aligned _, ?_⟩
  have short := name.short
  have inside : 1 ≤ (Bytes.ofText name.text ++ [0]).length ∧
      (Bytes.ofText name.text ++ [0]).length ≤ SetName.fieldWidth := by
    simp only [List.length_append, List.length_singleton, SetName.fieldWidth]
    omega
  simp only [setName, Raw.header, if_pos inside, List.take_left, name.ofField_terminated []]

theorem reads_hardwareAddress (make : Vector UInt8 6 → Datum) (octets : Vector UInt8 6) :
    Reads (hardwareAddress make) { tag, payload := octets.toList } (some (make octets)) :=
  reads_exactly tag octets.length_toList (by
    rw [dif_pos octets.length_toList]
    exact congrArg (fun read => Except.ok (make read)) (Vector.toArray_inj.mp Array.toArray_toList))

def octetsTree (address : Address) : Tree :=
  .value { number := Tree.octetsNumber address, network := true } address.octets

theorem nestedAddress_encode (address : Address) (rest : Bytes) :
    nestedAddress ((octetsTree address).encode ++ rest) =
      .ok (address, (octetsTree address).size) := by
  have enough : address.octets.length ≤
      (address.octets ++ (Bytes.padding address.octets.length ++ rest)).length := by simp
  have short : 4 + address.octets.length < 65536 := by
    cases address <;> simp [Address.octets]
  obtain ⟨_, _, _, _, written, header⟩ := Attr.exists_header_read
    { number := Tree.octetsNumber address, network := true } short enough
  simp only [Tree.encode_eq, octetsTree, Tree.raw, written, List.append_assoc, List.cons_append,
    List.nil_append, nestedAddress, header, List.take_left, Address.ofOctets_octets, Tree.size]
  cases address <;> simp [Tree.octetsNumber, Address.octets, Bytes.aligned]

theorem reads_address (make : Address → Datum) (address : Address) (marked : tag.nested = true) :
    Reads (Datum.address make) { tag, payload := Tree.encodeAll [octetsTree address] }
      (some (make address)) := by
  intro rest
  refine ⟨(octetsTree address).size, ?_, ?_⟩
  · rw [Tree.length_encodeAll, Tree.aligned_sizeAll]
    exact Nat.le_add_right _ _
  · simp only [Datum.address, Raw.header, if_pos marked, Tree.encodeAll, List.append_nil,
      nestedAddress_encode]

/-! ## Any datum -/

/-- A datum is read back in a block in which the number of its kind has its meaning. -/
theorem reads_tree {block : Block}
    (known : Kind.ofNumber? block datum.kind.number = some datum.kind) :
    Reads (Datum.read block) datum.tree.raw (some datum) := by
  have tagged : datum.tree.raw.header.tag.number = datum.kind.number := by
    cases datum <;> rfl
  have interpreted : Datum.read block datum.tree.raw.header =
      datum.kind.reader datum.tree.raw.header := by
    funext rest
    simp only [Datum.read, tagged, known]
  intro rest
  rw [interpreted]
  cases datum with
  | ip address | ipTo address | ip2 address => exact reads_address _ address rfl rest
  | cidr value | proto value | netmask value | probes value | resize value | cidr2 value =>
      exact reads_octet _ value rest
  | firstPort value | lastPort value => exact reads_networkHalf _ value rfl rest
  | timeout value | elementFlags value | gc value | hashSize value | maxElements value
  | size value => exact reads_networkWord _ value rfl rest
  | lineNumber value => exact reads_word _ value rest
  | ether octets => exact reads_hardwareAddress _ octets rest
  | name member | nameRef member => exact reads_setName _ member rest

theorem size_tree (datum : Datum) : datum.tree.size ≤ 40 := by
  cases datum with
  | name member | nameRef member =>
      have short := member.short
      simp only [tree, Tree.text, Tree.size, List.length_append, List.length_singleton,
        Bytes.aligned]
      omega
  | ip address | ipTo address | ip2 address =>
      cases address <;> simp [tree, Tree.address, Tree.block, Tree.size, Tree.sizeAll,
        Address.octets, Bytes.aligned]
  | _ => simp [tree, Tree.octet, Tree.word, Tree.networkHalf, Tree.networkWord, Tree.size,
      Bytes.aligned]

theorem readAll_dataBlock {block : Block} {data : List Datum}
    (known : ∀ datum ∈ data, Kind.ofNumber? block datum.kind.number = some datum.kind) :
    readAll block (Message.Argument.dataBlock data).raw = .ok data := by
  have read : Attr.readAll (Datum.read block) (Tree.encodeAll (data.map Datum.tree)) =
      .ok (data.filterMap some) :=
    Attr.readAll_encodeAll (fun datum _ => Nat.lt_of_le_of_lt datum.size_tree (by decide))
      fun datum present => reads_tree (known datum present)
  simp only [readAll, Message.Argument.dataBlock, Tree.block, Tree.raw, if_true, read,
    List.filterMap_some]

end Datum

end NamedSets
