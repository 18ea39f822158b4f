import NamedSets.Storage.Basic

namespace NamedSets

def protocolVersion : UInt8 := 6

structure SetType (σ : Type) where
  name : String
  /-- The family it serves; a type of the unspecified family serves all. -/
  family : Family
  revision : UInt8
  /-- How many components an element consists of. -/
  dimension : UInt8
  features : Features
  /-- The version of the protocol that the type was made for. -/
  protocol : UInt8 := protocolVersion
  maker : Maker σ

namespace SetType

variable {σ : Type}

def addressHash : SetType σ where
  name := "hash:ip"
  family := .unspecified
  revision := 0
  dimension := 1
  features := { address := true }
  maker := .addressHash

def setList : SetType σ where
  name := "list:set"
  family := .unspecified
  revision := 0
  dimension := 1
  features := { name := true, listedLast := true }
  maker := .setList

def builtin? (name : String) : Option (SetType σ) :=
  if name = "hash:ip" then some addressHash
  else if name = "list:set" then some setList
  else none

/-- Whether requests for a type name and a family are meant for this type. -/
def serves (type : SetType σ) (name : String) (family : Family) : Bool :=
  type.name = name && type.family.accepts family

end SetType

end NamedSets
