import NamedSets.Attr.Raw
import NamedSets.Datum.Basic

/-!
# Reading data blocks

Every kind of datum has one form on the wire, and a payload of another length is
refused. Unknown numbers are skipped.
-/

namespace NamedSets.Datum

/-- Reads what stands behind a header; answers the datum, unless it is one to skip, and
the number of bytes taken. -/
abbrev Reader := Attr.Header → Bytes → Except Fault (Option Datum × Nat)

def skip : Reader := fun header _ => .ok (none, header.length)

def badLength : Reader := fun _ _ => .error .attributeLength

def exactly (width : Nat) (make : Bytes → Except Fault Datum) : Reader := fun header rest =>
  if header.length = width then
    match make (rest.take width) with
    | .ok datum => .ok (some datum, width)
    | .error fault => .error fault
  else .error .attributeLength

def octet (make : UInt8 → Datum) : Reader :=
  exactly 1 fun payload => .ok (make (UInt8.ofNat (Bytes.ofLittle payload)))

def word (make : UInt32 → Datum) : Reader :=
  exactly 4 fun payload => .ok (make (UInt32.ofNat (Bytes.ofLittle payload)))

def network (width : Nat) (make : Nat → Datum) : Reader := fun header rest =>
  exactly width (fun payload =>
    if header.tag.network then .ok (make (Bytes.ofBig payload))
    else .error .valueNotInNetworkOrder) header rest

def networkHalf (make : UInt16 → Datum) : Reader := network 2 fun number => make (.ofNat number)

def networkWord (make : UInt32 → Datum) : Reader := network 4 fun number => make (.ofNat number)

/-- Reads a name of at most 32 bytes; it need not be terminated. -/
def setName (make : SetName → Datum) : Reader := fun header rest =>
  if 1 ≤ header.length ∧ header.length ≤ SetName.fieldWidth then
    match SetName.ofField (rest.take header.length) with
    | .ok found => .ok (some (make found), header.length)
    | .error _ => .error .invalidSetName
  else .error .attributeLength

def hardwareAddress (make : Vector UInt8 6 → Datum) : Reader :=
  exactly 6 fun payload =>
    if width : payload.length = 6 then .ok (make ⟨payload.toArray, by simpa using width⟩)
    else .error .shortBuffer

/-- Reads the attribute that holds the octets of an address. Its header and octets are
taken from all that follows, so they may reach beyond the attribute they are nested in. -/
def nestedAddress : Bytes → Except Fault (Address × Nat)
  | length₀ :: length₁ :: tag₀ :: tag₁ :: rest =>
      match Attr.Header.read length₀ length₁ tag₀ tag₁ rest with
      | .error fault => .error fault
      | .ok header =>
          match header.tag.number.toNat, header.length, Address.ofOctets? (rest.take header.length) with
          | 1, 4, some address => .ok (address, 8)
          | 2, 16, some address => .ok (address, 20)
          | 1, _, _ => .error .invalidIpv4
          | 2, _, _ => .error .invalidIpv6
          | _, _, _ => .error .unknownAddressKind
  | _ => .error .shortBuffer

def address (make : Address → Datum) : Reader := fun header rest =>
  if header.tag.nested then
    match nestedAddress rest with
    | .ok (address, taken) => .ok (some (make address), taken)
    | .error fault => .error fault
  else .error .addressNotNested

def Kind.reader : Kind → Reader
  | .unspecified => badLength
  | .ip => address .ip
  | .ipTo => address .ipTo
  | .cidr => octet .cidr
  | .firstPort => networkHalf .firstPort
  | .lastPort => networkHalf .lastPort
  | .timeout => networkWord .timeout
  | .proto => octet .proto
  | .elementFlags => networkWord .elementFlags
  | .lineNumber => word .lineNumber
  | .gc => networkWord .gc
  | .hashSize => networkWord .hashSize
  | .maxElements => networkWord .maxElements
  | .netmask => octet .netmask
  | .probes => octet .probes
  | .resize => octet .resize
  | .size => networkWord .size
  | .elements | .references | .memorySize => skip
  | .ether => hardwareAddress .ether
  | .name => setName .name
  | .nameRef => setName .nameRef
  | .ip2 => address .ip2
  | .cidr2 => octet .cidr2

def read (block : Block) : Reader := fun header rest =>
  match Kind.ofNumber? block header.tag.number with
  | some kind => kind.reader header rest
  | none => skip header rest

def readAll (block : Block) (raw : Attr.Raw) : Except Fault (List Datum) :=
  if raw.tag.nested then Attr.readAll (read block) raw.payload else .error .dataNotNested

end NamedSets.Datum
