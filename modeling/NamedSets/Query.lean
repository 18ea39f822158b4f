import NamedSets.Address

namespace NamedSets

/-- For each dimension, whether it refers to the source of the packet. -/
structure Sides where
  first : Bool
  second : Bool
  third : Bool
deriving DecidableEq, Repr

namespace Sides

/-- The lowest bit is the first dimension; bits beyond the third are ignored. -/
def ofBits (bits : UInt8) : Sides where
  first := bits.toNat % 2 = 1
  second := bits.toNat / 2 % 2 = 1
  third := bits.toNat / 4 % 2 = 1

def bits (sides : Sides) : Nat :=
  sides.first.toNat + 2 * sides.second.toNat + 4 * sides.third.toNat

def isSource (sides : Sides) (dimension : UInt8) : Bool :=
  match dimension.toNat with
  | 1 => sides.first
  | 2 => sides.second
  | 3 => sides.third
  | _ => false

end Sides

structure Packet where
  source : Address
  destination : Address
  sourcePort : UInt16
  destinationPort : UInt16
deriving DecidableEq, Repr

namespace Packet

def family (packet : Packet) : Family := packet.source.family

def address (packet : Packet) (dimension : UInt8) (sides : Sides) : Address :=
  if sides.isSource dimension then packet.source else packet.destination

def endPort (packet : Packet) (dimension : UInt8) (sides : Sides) : UInt16 :=
  if sides.isSource dimension then packet.sourcePort else packet.destinationPort

end Packet

structure Query where
  packet : Packet
  family : Family
  /-- How many dimensions the caller supplies. -/
  dimension : UInt8
  sides : Sides
deriving DecidableEq, Repr

/-- The address that a one-dimensional set looks at. -/
def Query.address (query : Query) : Address := query.packet.address 1 query.sides

end NamedSets
