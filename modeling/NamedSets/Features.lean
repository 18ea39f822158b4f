namespace NamedSets

/-- What the elements of a type consist of. Only sets of equal features can be swapped. -/
structure Features where
  address : Bool := false
  ports : Bool := false
  hardwareAddress : Bool := false
  secondAddress : Bool := false
  name : Bool := false
  /-- Sets of the type are listed after all others, since they refer to them. -/
  listedLast : Bool := false
deriving DecidableEq, Repr

namespace Features

def ofBits (bits : Nat) : Features where
  address := bits % 2 = 1
  ports := bits / 2 % 2 = 1
  hardwareAddress := bits / 4 % 2 = 1
  secondAddress := bits / 8 % 2 = 1
  name := bits / 16 % 2 = 1
  listedLast := bits / 32 % 2 = 1

def bits (features : Features) : Nat :=
  features.address.toNat + 2 * features.ports.toNat + 4 * features.hardwareAddress.toNat +
    8 * features.secondAddress.toNat + 16 * features.name.toNat + 32 * features.listedLast.toNat

@[simp] theorem ofBits_bits (features : Features) : ofBits features.bits = features := by
  obtain ⟨address, ports, hardwareAddress, secondAddress, name, listedLast⟩ := features
  cases address <;> cases ports <;> cases hardwareAddress <;> cases secondAddress <;>
    cases name <;> cases listedLast <;> rfl

end Features

end NamedSets
