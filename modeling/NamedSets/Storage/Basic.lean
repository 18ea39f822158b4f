import NamedSets.Storage.AddressHash
import NamedSets.Storage.Foreign
import NamedSets.Storage.SetList

namespace NamedSets

inductive Storage (σ : Type) where
  | hash (hash : AddressHash)
  | list (list : SetList)
  | foreign (storage : σ)

/-- How a set type makes the storage of a new set. -/
inductive Maker (σ : Type) where
  | addressHash
  | setList
  | foreign (blank : σ)

variable {σ : Type}

def Maker.make [ForeignStorage σ] (maker : Maker σ) (family : Family) (data : List Datum) :
    Except Fault (Storage σ) :=
  match maker with
  | addressHash =>
      match AddressHash.create family data with
      | .ok hash => .ok (.hash hash)
      | .error fault => .error fault
  | setList => .ok (.list (SetList.create data))
  | foreign blank =>
      match ForeignStorage.create blank family data with
      | .ok storage => .ok (.foreign storage)
      | .error fault => .error fault

namespace Storage

def sameParameters [ForeignStorage σ] : Storage σ → Storage σ → Bool
  | hash first, hash second => first.sameParameters second
  | list first, list second => first.sameParameters second
  | foreign first, foreign second => ForeignStorage.sameParameters first second
  | _, _ => false

def resize [ForeignStorage σ] (again : Bool) : Storage σ → Storage σ × Except Fault Unit
  | hash current =>
      match current.resize again with
      | .ok grown => (hash grown, .ok ())
      | .error fault => (hash current, .error fault)
  | list current => (list current, .error .cannotResize)
  | foreign current =>
      let (grown, result) := ForeignStorage.resize current again
      (foreign grown, result)

def describe [ForeignStorage σ] (storage : Storage σ) (draft : Message.Draft) :
    Message.Draft × Except Fault Unit :=
  match storage with
  | hash current => draft.putAll (current.description (ForeignStorage.hashMemory σ current))
  | list current => draft.putAll (current.description (ForeignStorage.listMemory σ current))
  | foreign current => ForeignStorage.describe current draft

/-- The slots that the storage holds a reference to. -/
def members : Storage σ → List Nat
  | list current => current.members
  | _ => []

end Storage

end NamedSets
