import NamedSets.Datum.Basic

namespace NamedSets

structure SetList where
  size : UInt32
  /-- The slots of the members, in order. -/
  members : List Nat
deriving DecidableEq

namespace SetList

def defaultSize : UInt32 := 8
def leastSize : UInt32 := 4

def create (data : List Datum) : SetList where
  size := max leastSize ((data.findSome? fun | .size size => some size | _ => none).getD defaultSize)
  members := []

/-! ## Places -/

/-- A member that element data name, and its place next to a reference member. -/
structure Place where
  name : SetName
  /-- Directly before the reference member instead of directly behind it. -/
  before : Bool
  reference : Option SetName
deriving DecidableEq

structure Named where
  name : Option SetName := none
  before : Bool := false
  reference : Option SetName := none

def Named.assign (named : Named) : Datum → Except Fault Named
  | .name name => .ok { named with name := some name }
  | .nameRef name => .ok { named with reference := some name }
  | .elementFlags flags => .ok { named with before := flags.toNat % 2 = 1 }
  | .timeout _ => .error .timeoutUnsupported
  | _ => .ok named

/-- The place that element data describe. -/
def Place.ofData (data : List Datum) : Except Fault Place :=
  match data.foldlM Named.assign {} with
  | .error fault => .error fault
  | .ok named =>
      match named.name with
      | none => .error .memberNameMissing
      | some name =>
          if named.before && named.reference.isNone then .error .referenceMissing
          else .ok { name, before := named.before, reference := named.reference }

/-! ## Members -/

def position? (list : SetList) (member : Nat) : Option Nat := list.members.idxOf? member

/-- The member next to a position, where a reference member has to be: behind it if the
position is to be before the reference, in front of it otherwise. -/
def neighbour? (list : SetList) (position : Nat) (before : Bool) : Option Nat :=
  if before then list.members[position + 1]?
  else if position = 0 then none else list.members[position - 1]?

def insertAt (list : SetList) (position member : Nat) : SetList :=
  { list with members := list.members.insertIdx position member }

def eraseAt (list : SetList) (position : Nat) : SetList :=
  { list with members := list.members.eraseIdx position }

def sameParameters (list other : SetList) : Bool := list.size = other.size

def description (list : SetList) (memory : UInt32) : List Attr.Tree :=
  [(Datum.size list.size).tree, Attr.Tree.networkWord Datum.Kind.memorySize.number memory]

end SetList

end NamedSets
