import NamedSets.Table.Basic

/-!
# The packet path

The packet filter tests the address of a packet against the set in a slot, or adds or
deletes it there. A list of sets passes the question on to its members in order. Since
a list is never a member of a list, a question is passed on once; the bound on the depth
is the number of slots, which no chain of members without a repetition exceeds. A question
that would have to be passed on further than its bound has no answer.
-/

namespace NamedSets

inductive PacketChange where
  | add
  | delete
deriving DecidableEq, Repr

namespace AddressHash

/-- Whether the address of a query is an element. -/
def testPacket (hash : AddressHash) (query : Query) : Except Fault Bool :=
  (hash.element query.address).map hash.contains

/-- Adds or deletes the address of a query. -/
def changePacket (hash : AddressHash) (change : PacketChange) (query : Query) :
    Except Fault AddressHash :=
  match hash.element query.address with
  | .error fault => .error fault
  | .ok element =>
      match change with
      | .add => hash.insert element
      | .delete => hash.erase element

end AddressHash

namespace Table

variable {σ : Type}

def anySlot (test : Table σ → Nat → Option (Table σ × Bool)) :
    Table σ → List Nat → Option (Table σ × Bool)
  | table, [] => some (table, false)
  | table, id :: rest =>
      match test table id with
      | none => none
      | some (tested, true) => some (tested, true)
      | some (tested, false) => anySlot test tested rest

/-- Makes a change to the first of the slots where it succeeds. -/
def firstSlot (change : Table σ → Nat → Option (Table σ × Except Fault Unit)) :
    Table σ → List Nat → Option (Table σ × Except Fault Unit)
  | table, [] => some (table, .error .noMemberAccepts)
  | table, id :: rest =>
      match change table id with
      | none => none
      | some (changed, .ok ()) => some (changed, .ok ())
      | some (changed, .error _) => firstSlot change changed rest

variable [ForeignStorage σ]

/-- Tests a packet against the set in a slot, through at most `depth` lists one in the
other; none if there are more of them. -/
def testPacketWithin (query : Query) : (depth : Nat) → Table σ → Nat → Option (Table σ × Bool)
  | depth, table, id =>
      match table.get? id with
      | none => some (table, false)
      | some entry =>
          if entry.accepts query then
            match entry.storage with
            | .hash hash => some (table, (hash.testPacket query).toOption.getD false)
            | .list list =>
                match depth with
                | 0 => none
                | depth + 1 => anySlot (testPacketWithin query depth) table list.members
            | .foreign storage =>
                match ForeignStorage.testPacket (ForeignStorage.observe storage table.shown) query with
                | (tested, .ok found) => some (table.setStorage id (.foreign tested), found)
                | (tested, .error fault) =>
                    if fault.errno = .again then
                      let seen := ForeignStorage.observe tested table.shown
                      let completed := (ForeignStorage.addPacket seen query).1
                      some (table.setStorage id (.foreign completed), true)
                    else some (table.setStorage id (.foreign tested), false)
          else some (table, false)

/-- Whether a packet matches the set in a slot. A fault of the storage is no match. A
match that the storage wants completed is one, whether or not the completion succeeds. -/
def testPacket (table : Table σ) (id : Nat) (query : Query) : Table σ × Bool :=
  (testPacketWithin query table.capacity table id).getD (table, false)

def changePacketWithin (change : PacketChange) (query : Query) :
    (depth : Nat) → Table σ → Nat → Option (Table σ × Except Fault Unit)
  | depth, table, id =>
      match table.get? id with
      | none => some (table, .error .noSuchSet)
      | some entry =>
          if entry.accepts query then
            match entry.storage with
            | .hash hash =>
                match hash.changePacket change query with
                | .ok changed => some (table.setStorage id (.hash changed), .ok ())
                | .error fault => some (table, .error fault)
            | .list list =>
                match depth with
                | 0 => none
                | depth + 1 => firstSlot (changePacketWithin change query depth) table list.members
            | .foreign storage =>
                let seen := ForeignStorage.observe storage table.shown
                let (changed, result) := match change with
                  | .add => ForeignStorage.addPacket seen query
                  | .delete => ForeignStorage.deletePacket seen query
                some (table.setStorage id (.foreign changed), result)
          else some (table, .ok ())

/-- Adds or deletes a packet in the set in a slot. A set that the query is not meant for
is left alone, which counts as success. -/
def changePacket (table : Table σ) (id : Nat) (change : PacketChange) (query : Query) :
    Table σ × Except Fault Unit :=
  (changePacketWithin change query table.capacity table id).getD (table, .error .noMemberAccepts)

end Table

end NamedSets
