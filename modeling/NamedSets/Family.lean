import NamedSets.Fault

namespace NamedSets

inductive Family where
  | unspecified
  | ipv4
  | ipv6
deriving DecidableEq, Repr

namespace Family

def code : Family → UInt8
  | unspecified => 0
  | ipv4 => 2
  | ipv6 => 10

def ofCode (code : UInt8) : Except Fault Family :=
  match code.toNat with
  | 0 => .ok unspecified
  | 2 => .ok ipv4
  | 10 => .ok ipv6
  | _ => .error .unknownFamilyCode

/-- Whether something of this family serves a request of the other one. -/
def accepts (family request : Family) : Bool :=
  family = unspecified || family = request

@[simp] theorem ofCode_code (family : Family) : ofCode family.code = .ok family := by
  cases family <;> rfl

@[simp] theorem accepts_self (family : Family) : family.accepts family = true := by
  simp [accepts]

end Family

end NamedSets
