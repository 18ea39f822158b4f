import NamedSets.Features
import NamedSets.Message.Draft
import NamedSets.Query
import NamedSets.SetName
import NamedSets.Storage.AddressHash
import NamedSets.Storage.SetList

/-!
# Foreign storages

Set types from outside the library bring a storage of their own. It answers the same questions
as the built-in ones and, where they get to see the table, is shown what is in the slots. A
reference that it takes or gives back, at the latest when its set is removed, is one of some user
of the table like any other. Every operation answers the storage as it is afterwards, also when it
fails.
-/

namespace NamedSets

inductive Progress where
  | done
  /-- The message is full; the listing resumes at its cursor. -/
  | more
deriving DecidableEq, Repr

/-- What anybody may read of the set in a slot. -/
structure Shown where
  name : SetName
  typeName : String
  typeFamily : Family
  revision : UInt8
  dimension : UInt8
  features : Features
  family : Family
  references : UInt32

/-- What a set type needs of its storage. A value of the type `σ` is a storage, and also
the blank that new storages of a set type are made from. -/
class ForeignStorage (σ : Type) where
  /-- Shows the slots of the table before an operation that may read them: every one on packets
  or elements, a flush and a listing. -/
  observe (storage : σ) (_slots : List (Option Shown)) : σ := storage
  create (blank : σ) (family : Family) (data : List Datum) : Except Fault σ
  /-- `again` in the answer means that the packet matches an element which an add has
  to complete. -/
  testPacket (storage : σ) (query : Query) : σ × Except Fault Bool
  addPacket (storage : σ) (query : Query) : σ × Except Fault Unit
  deletePacket (storage : σ) (query : Query) : σ × Except Fault Unit
  test (storage : σ) (data : List Datum) : σ × Except Fault Bool
  /-- `again` in the answer means that the storage has to be resized first. -/
  add (storage : σ) (data : List Datum) : σ × Except Fault Unit
  delete (storage : σ) (data : List Datum) : σ × Except Fault Unit
  flush (storage : σ) : σ
  describe (storage : σ) (draft : Message.Draft) : Message.Draft × Except Fault Unit
  /-- Writes elements from a cursor on, and answers the cursor behind the last one. -/
  list (storage : σ) (cursor : Nat) (draft : Message.Draft) :
    Message.Draft × Nat × Except Fault Progress
  /-- Grows after an add answered `again`; tells whether that happened before. -/
  resize (storage : σ) (_again : Bool) : σ × Except Fault Unit := (storage, .error .cannotResize)
  sameParameters (_storage _other : σ) : Bool := false
  /-- The memory that a hash of the library takes, by its own account. -/
  hashMemory (_hash : AddressHash) : UInt32 := 0
  listMemory (_list : SetList) : UInt32 := 0

instance : ForeignStorage Empty where
  create blank _ _ := nomatch blank
  testPacket storage _ := nomatch storage
  addPacket storage _ := nomatch storage
  deletePacket storage _ := nomatch storage
  test storage _ := nomatch storage
  add storage _ := nomatch storage
  delete storage _ := nomatch storage
  flush storage := nomatch storage
  describe storage _ := nomatch storage
  list storage _ _ := nomatch storage

end NamedSets
