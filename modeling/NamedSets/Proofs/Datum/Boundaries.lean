import Mathlib.Control.Monad.Basic
import NamedSets.Datum.Reader
import NamedSets.Message.Argument
import NamedSets.Proofs.Attr.Boundaries

/-!
# Data within their attributes

A data block is read attribute by attribute, each from its header and its own payload, unless
an attribute that should hold an address does not hold all of it. Such an address is read on
into the bytes behind the attribute.
-/

namespace NamedSets.Datum

open Attr (Confined Header Raw)

variable {block : Block} {raw : Raw} {children : List Raw} {payload rest : Bytes}

/-! ## Addresses -/

/-- The bytes that an attribute takes by its own account, which are never fewer than those of a
header. -/
def announced : Bytes → Nat
  | length₀ :: length₁ :: _ :: _ :: _ => max Attr.headerLength (Bytes.ofLittle [length₀, length₁])
  | _ => Attr.headerLength

theorem nestedAddress_append (inside : announced payload ≤ payload.length) (rest : Bytes) :
    nestedAddress (payload ++ rest) = nestedAddress payload := by
  match payload with
  | [] | [_] | [_, _] | [_, _, _] => simp [announced, Attr.headerLength] at inside
  | length₀ :: length₁ :: tag₀ :: tag₁ :: octets =>
      simp only [announced, Attr.headerLength, List.length_cons] at inside
      have same : Header.read length₀ length₁ tag₀ tag₁ (octets ++ rest) =
          Header.read length₀ length₁ tag₀ tag₁ octets := by
        have whole : Bytes.ofLittle [length₀, length₁] - 4 ≤ octets.length := by omega
        simp only [Header.read, Attr.headerLength, List.length_take, List.length_append,
          Nat.min_eq_left whole, Nat.min_eq_left (Nat.le_add_right_of_le whole)]
      simp only [List.cons_append, nestedAddress, same]
      cases found : Header.read length₀ length₁ tag₀ tag₁ octets with
      | error fault => rfl
      | ok header =>
          obtain ⟨-, within, -⟩ := Attr.Header.read_ok found
          simp only [List.take_append_of_le_length within]

theorem nestedAddress_taken {address : Address} {taken : Nat}
    (found : nestedAddress payload = .ok (address, taken)) : taken ≤ payload.length := by
  unfold nestedAddress at found
  split at found
  · rename_i length₀ length₁ tag₀ tag₁ octets
    split at found
    · contradiction
    · rename_i header accepted
      obtain ⟨-, within, -⟩ := Attr.Header.read_ok accepted
      simp only [List.length_cons]
      split at found <;> first | contradiction | (cases found; omega)
  · contradiction

/-- An address that its payload does not hold is refused if nothing follows the payload. -/
theorem nestedAddress_short (beyond : payload.length < announced payload) :
    ∃ fault, nestedAddress payload = .error fault := by
  match payload with
  | [] | [_] | [_, _] | [_, _, _] => exact ⟨.shortBuffer, rfl⟩
  | length₀ :: length₁ :: tag₀ :: tag₁ :: octets =>
      refine ⟨.attributeLength, ?_⟩
      simp only [announced, Attr.headerLength, List.length_cons] at beyond
      have refused : Header.read length₀ length₁ tag₀ tag₁ octets = .error .attributeLength := by
        simp only [Header.read, Attr.headerLength, List.length_take]
        rw [if_pos]
        simp only [Bool.or_eq_true, decide_eq_true_eq]
        omega
      simp only [nestedAddress, refused]

/-! ## Readers -/

/-- The attribute announces an address, and the address is announced to end behind it. -/
structure Overreaches (block : Block) (raw : Raw) : Prop where
  address : Kind.ofNumber? block raw.tag.number ∈ [some .ip, some .ipTo, some .ip2]
  nested : raw.tag.nested = true
  beyond : raw.payload.length < announced raw.payload

theorem confined_exactly (width : Nat) (make : Bytes → Except Fault Datum) (raw : Raw) :
    Confined (exactly width make) raw where
  local_eq rest := by
    unfold exactly
    split
    · rename_i long
      have whole : raw.payload.length = width := long
      rw [← whole, List.take_left, List.take_length]
    · rfl
  taken_le found taken made := by
    unfold exactly at made
    split at made
    · rename_i long
      split at made
      · cases made
        exact Nat.le_of_eq long.symm
      · contradiction
    · contradiction

theorem confined_network (width : Nat) (make : Nat → Datum) (raw : Raw) :
    Confined (network width make) raw :=
  ⟨(confined_exactly width _ raw).local_eq, (confined_exactly width _ raw).taken_le⟩

theorem confined_octet (make : UInt8 → Datum) (raw : Raw) : Confined (octet make) raw :=
  confined_exactly 1 _ raw

theorem confined_word (make : UInt32 → Datum) (raw : Raw) : Confined (word make) raw :=
  confined_exactly 4 _ raw

theorem confined_networkHalf (make : UInt16 → Datum) (raw : Raw) :
    Confined (networkHalf make) raw := confined_network 2 _ raw

theorem confined_networkWord (make : UInt32 → Datum) (raw : Raw) :
    Confined (networkWord make) raw := confined_network 4 _ raw

theorem confined_hardwareAddress (make : Vector UInt8 6 → Datum) (raw : Raw) :
    Confined (hardwareAddress make) raw := confined_exactly 6 _ raw

theorem confined_setName (make : SetName → Datum) (raw : Raw) : Confined (setName make) raw where
  local_eq rest := by
    have whole : (raw.payload ++ rest).take raw.header.length =
        raw.payload.take raw.header.length := by
      rw [Raw.header, List.take_left, List.take_length]
    simp only [setName, whole]
  taken_le found taken made := by
    unfold setName at made
    split at made
    · split at made
      · cases made
        exact Nat.le_refl _
      · contradiction
    · contradiction

theorem confined_skip (raw : Raw) : Confined skip raw where
  local_eq _ := rfl
  taken_le found taken made := by
    cases made
    exact Nat.le_refl _

theorem confined_address (make : Address → Datum)
    (inside : raw.tag.nested = true → announced raw.payload ≤ raw.payload.length) :
    Confined (address make) raw where
  local_eq rest := by
    unfold address
    split
    · rename_i nested
      rw [nestedAddress_append (inside nested)]
    · rfl
  taken_le found taken made := by
    unfold address at made
    split at made
    · split at made
      · rename_i held
        cases made
        exact nestedAddress_taken held
      · contradiction
    · contradiction

/-- Only an address that ends behind its attribute is read from more than the attribute. -/
theorem confined_of_not_overreaches (within : ¬ Overreaches block raw) :
    Confined (read block) raw := by
  cases known : Kind.ofNumber? block raw.tag.number with
  | none =>
      have skipped : ∀ bytes, read block raw.header bytes = skip raw.header bytes := by
        intro bytes
        simp only [read, Raw.header, known]
      refine ⟨fun rest => ?_, fun found taken made => ?_⟩
      · rw [skipped, skipped, (confined_skip raw).local_eq]
      · rw [skipped] at made
        exact (confined_skip raw).taken_le found taken made
  | some kind =>
      have inside (address : some kind ∈ [some .ip, some .ipTo, some .ip2])
          (nested : raw.tag.nested = true) : announced raw.payload ≤ raw.payload.length :=
        Nat.not_lt.mp fun beyond => within ⟨known ▸ address, nested, beyond⟩
      have confined : Confined kind.reader raw := by
        cases kind with
        | unspecified => exact ⟨fun _ => rfl, by simp [Kind.reader, badLength]⟩
        | ip | ipTo | ip2 => exact confined_address _ (inside (by simp))
        | cidr | proto | netmask | probes | resize | cidr2 => exact confined_octet _ raw
        | firstPort | lastPort => exact confined_networkHalf _ raw
        | timeout | elementFlags | gc | hashSize | maxElements | size =>
            exact confined_networkWord _ raw
        | lineNumber => exact confined_word _ raw
        | ether => exact confined_hardwareAddress _ raw
        | elements | references | memorySize => exact confined_skip raw
        | name | nameRef => exact confined_setName _ raw
      have interpreted : ∀ bytes, read block raw.header bytes = kind.reader raw.header bytes := by
        intro bytes
        simp only [read, Raw.header, known]
      refine ⟨fun rest => ?_, fun found taken made => ?_⟩
      · rw [interpreted, interpreted, confined.local_eq]
      · rw [interpreted] at made
        exact confined.taken_le found taken made

theorem Overreaches.exists_reader (reaches : Overreaches block raw) :
    ∃ make, ∀ bytes, read block raw.header bytes = Datum.address make raw.header bytes := by
  have known := reaches.address
  simp only [List.mem_cons, List.not_mem_nil, or_false] at known
  rcases known with known | known | known
  · exact ⟨.ip, fun bytes => by simp only [read, Raw.header, known, Kind.reader]⟩
  · exact ⟨.ipTo, fun bytes => by simp only [read, Raw.header, known, Kind.reader]⟩
  · exact ⟨.ip2, fun bytes => by simp only [read, Raw.header, known, Kind.reader]⟩

/-- An attribute that overreaches is refused on its own. -/
theorem Overreaches.refused (reaches : Overreaches block raw) :
    ∃ fault, read block raw.header raw.payload = .error fault := by
  obtain ⟨make, read⟩ := reaches.exists_reader
  obtain ⟨fault, short⟩ := nestedAddress_short reaches.beyond
  have nested : raw.header.tag.nested = true := reaches.nested
  exact ⟨fault, by simp only [read, Datum.address, if_pos nested, short]⟩

/-! ## Blocks -/

def readAlone (block : Block) (raw : Raw) : Except Fault (List Datum) :=
  readAll block {
    tag := { number := Message.Argument.dataNumber, nested := true }
    payload := raw.alone }

theorem readAlone_eq (block : Block) (raw : Raw) :
    readAlone block raw = Attr.readAll (read block) raw.alone := rfl

theorem Overreaches.refused_alone (reaches : Overreaches block raw)
    (short : 4 + raw.payload.length < 65536) : ∃ fault, readAlone block raw = .error fault := by
  obtain ⟨fault, refused⟩ := reaches.refused
  exact ⟨fault, by rw [readAlone_eq, Attr.readAll_alone short, refused]; rfl⟩

/-- A block whose attributes are all read alone is read as their data, one after another. If no
attribute overreaches, the block is read as its attributes are, and is refused with the first of
them that is refused. -/
theorem read_by_attributes (block : Block) (nested : raw.tag.nested = true)
    (parts : raw.children = .ok children) :
    (∀ lists, children.mapM (readAlone block) = .ok lists →
      readAll block raw = .ok lists.flatten) ∧
    ((∀ child ∈ children, ¬ Overreaches block child) →
      readAll block raw = (children.mapM (readAlone block)).map List.flatten) := by
  have one_by_one (within : ∀ child ∈ children, ¬ Overreaches block child) :
      readAll block raw = (children.mapM (readAlone block)).map List.flatten := by
    rw [readAll, if_pos nested]
    exact Attr.readAll_eq_mapM_alone parts fun child present =>
      confined_of_not_overreaches (within child present)
  refine ⟨fun lists accepted => ?_, one_by_one⟩
  -- An attribute that overreaches is refused alone, so there is none.
  have within : ∀ child ∈ children, ¬ Overreaches block child := by
    intro child present reaches
    obtain ⟨data, read⟩ := Attr.ok_of_mem_of_mapM accepted present
    obtain ⟨fault, refused⟩ := reaches.refused_alone (Attr.length_of_mem_split parts present)
    cases read.symm.trans refused
  rw [one_by_one within, accepted]
  rfl

def sampleBlock : Raw where
  tag := { number := Message.Argument.dataNumber, nested := true }
  payload := [0x0c, 0x00, 0x01, 0x80, 0x08, 0x00, 0x01, 0x40, 0x0a, 0x00, 0x00, 0x00,
    0x05, 0x00, 0x03, 0x00, 0x18, 0x00, 0x00, 0x00]

def sampleChildren : List Raw :=
  [{ tag := { number := 1, nested := true },
     payload := [0x08, 0x00, 0x01, 0x40, 0x0a, 0x00, 0x00, 0x00] },
   { tag := { number := 3 }, payload := [0x18] }]

theorem read_by_attributes_sample :
    (sampleBlock.tag.nested = true ∧ sampleBlock.children = .ok sampleChildren) ∧
    readAll .element sampleBlock = .ok [.ip (.v4 0x0a000000), .cidr 24] ∧
    readAll .element sampleBlock =
      (sampleChildren.mapM (readAlone .element)).map List.flatten := by
  have parts : sampleBlock.children = .ok sampleChildren := by decide +kernel
  have alone : sampleChildren.mapM (readAlone .element) =
      .ok [[.ip (.v4 0x0a000000)], [.cidr 24]] := by decide +kernel
  have within : ∀ child ∈ sampleChildren, ¬ Overreaches .element child := by
    simp only [sampleChildren, List.forall_mem_cons]
    exact ⟨fun reaches => absurd reaches.beyond (by decide),
      fun reaches => absurd reaches.nested (by decide), by simp⟩
  exact ⟨⟨rfl, parts⟩, (read_by_attributes .element rfl parts).1 _ alone,
    (read_by_attributes .element rfl parts).2 within⟩

/-- A block of two attributes, an address and a line number. The address announces eight bytes,
and its attribute holds four of them. -/
def strayAddress : Raw where
  tag := { number := Message.Argument.dataNumber, nested := true }
  payload := [0x08, 0x00, 0x01, 0x80, 0x08, 0x00, 0x01, 0x40,
    0x08, 0x00, 0x09, 0x00, 0x04, 0x00, 0x0a, 0x00]

def strayChildren : List Raw :=
  [{ tag := { number := 1, nested := true }, payload := [0x08, 0x00, 0x01, 0x40] },
   { tag := { number := 9 }, payload := [0x04, 0x00, 0x0a, 0x00] }]

/-- The address is taken from the header of the line number, though its own attribute is
refused alone. -/
theorem address_beyond_attribute :
    strayAddress.children = .ok strayChildren ∧
    strayChildren.map (readAlone .set) = [.error .attributeLength, .ok [.lineNumber 0x000a0004]] ∧
    strayChildren.map (readAlone .element) =
      [.error .attributeLength, .ok [.lineNumber 0x000a0004]] ∧
    readAll .set strayAddress = .ok [.ip (.v4 0x08000900)] ∧
    readAll .element strayAddress = .ok [.ip (.v4 0x08000900)] := by
  refine ⟨?_, ?_, ?_, ?_, ?_⟩ <;> decide +kernel

end NamedSets.Datum
