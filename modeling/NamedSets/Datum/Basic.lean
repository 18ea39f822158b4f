import NamedSets.Attr.Tree
import NamedSets.SetName

namespace NamedSets

inductive Datum where
  | ip (address : Address)
  | ipTo (address : Address)
  | cidr (length : UInt8)
  | firstPort (number : UInt16)
  | lastPort (number : UInt16)
  | timeout (seconds : UInt32)
  | proto (number : UInt8)
  | elementFlags (flags : UInt32)
  | lineNumber (line : UInt32)
  | gc (seconds : UInt32)
  | hashSize (size : UInt32)
  | maxElements (count : UInt32)
  | netmask (length : UInt8)
  | probes (count : UInt8)
  | resize (percent : UInt8)
  | size (size : UInt32)
  | ether (octets : Vector UInt8 6)
  | name (name : SetName)
  | nameRef (name : SetName)
  | ip2 (address : Address)
  | cidr2 (length : UInt8)
deriving DecidableEq

namespace Datum

inductive Block where
  | set
  | element
deriving DecidableEq, Repr

inductive Kind where
  | unspecified
  | ip
  | ipTo
  | cidr
  | firstPort
  | lastPort
  | timeout
  | proto
  | elementFlags
  | lineNumber
  | gc
  | hashSize
  | maxElements
  | netmask
  | probes
  | resize
  | size
  | elements
  | references
  | memorySize
  | ether
  | name
  | nameRef
  | ip2
  | cidr2
deriving DecidableEq, Repr

namespace Kind

def number : Kind → BitVec 14
  | unspecified => 0
  | ip => 1
  | ipTo => 2
  | cidr => 3
  | firstPort => 4
  | lastPort => 5
  | timeout => 6
  | proto => 7
  | elementFlags => 8
  | lineNumber => 9
  | gc => 17
  | hashSize => 18
  | maxElements => 19
  | netmask => 20
  | probes => 21
  | resize => 22
  | size => 23
  | elements => 24
  | references => 25
  | memorySize => 26
  | ether => 17
  | name => 18
  | nameRef => 19
  | ip2 => 20
  | cidr2 => 21

/-- What a number means in a block of this kind. -/
def ofNumber? (block : Block) (number : BitVec 14) : Option Kind :=
  match number.toNat, block with
  | 0, _ => some unspecified
  | 1, _ => some ip
  | 2, _ => some ipTo
  | 3, _ => some cidr
  | 4, _ => some firstPort
  | 5, _ => some lastPort
  | 6, _ => some timeout
  | 7, _ => some proto
  | 8, _ => some elementFlags
  | 9, _ => some lineNumber
  | 17, .set => some gc
  | 18, .set => some hashSize
  | 19, .set => some maxElements
  | 20, .set => some netmask
  | 21, .set => some probes
  | 22, .set => some resize
  | 23, .set => some size
  | 24, .set => some elements
  | 25, .set => some references
  | 26, .set => some memorySize
  | 17, .element => some ether
  | 18, .element => some name
  | 19, .element => some nameRef
  | 20, .element => some ip2
  | 21, .element => some cidr2
  | _, _ => none

end Kind

def kind : Datum → Kind
  | ip _ => .ip
  | ipTo _ => .ipTo
  | cidr _ => .cidr
  | firstPort _ => .firstPort
  | lastPort _ => .lastPort
  | timeout _ => .timeout
  | proto _ => .proto
  | elementFlags _ => .elementFlags
  | lineNumber _ => .lineNumber
  | gc _ => .gc
  | hashSize _ => .hashSize
  | maxElements _ => .maxElements
  | netmask _ => .netmask
  | probes _ => .probes
  | resize _ => .resize
  | size _ => .size
  | ether _ => .ether
  | name _ => .name
  | nameRef _ => .nameRef
  | ip2 _ => .ip2
  | cidr2 _ => .cidr2

def tree (datum : Datum) : Attr.Tree :=
  let number := datum.kind.number
  match datum with
  | ip address | ipTo address | ip2 address => .address number address
  | cidr value | proto value | netmask value | probes value | resize value | cidr2 value =>
      .octet number value
  | firstPort value | lastPort value => .networkHalf number value
  | timeout value | elementFlags value | gc value | hashSize value | maxElements value
  | size value => .networkWord number value
  | lineNumber value => .word number value
  | ether octets => .value { number } octets.toList
  | name member | nameRef member => .text number member.text

end Datum

end NamedSets
