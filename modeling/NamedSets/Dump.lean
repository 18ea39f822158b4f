import NamedSets.Message.Report
import NamedSets.Table.Elements

/-!
# Dumps

A dump lists sets over several messages, each about a single set. The first message of
a set describes it, those that follow go on with its elements. A dump of all sets makes
two passes, so that sets which refer to others come after them. While a set is being
listed the dump holds a reference to its slot.
-/

namespace NamedSets

namespace Dump

inductive Mode where
  | all
  /-- The second pass over all sets, with only those that are listed last. -/
  | last
  | one
deriving DecidableEq, Repr

end Dump

structure Dump where
  mode : Dump.Mode
  slot : Nat
  /-- Where the listing of the slot resumes. There is such a cursor from the first message
  about the slot to the last, which is as long as the reference is held. -/
  cursor : Option Nat
  sequence : UInt32
  sender : UInt32
  finished : Bool
deriving DecidableEq, Repr

namespace Dump

variable {σ : Type}

def start (table : Table σ) (name? : Option SetName) (sequence sender : UInt32) :
    Except Fault Dump :=
  match name? with
  | none => .ok { mode := .all, slot := 0, cursor := none, sequence, sender, finished := false }
  | some name =>
      match table.find? name.text with
      | none => .error .noSuchSet
      | some slot => .ok { mode := .one, slot, cursor := none, sequence, sender, finished := false }

def nextSlot (table : Table σ) (listedLast : Bool) (start : Nat) : Option Nat :=
  (List.range' start (table.capacity - start)).find? fun slot =>
    (table.get? slot).any (·.type.features.listedLast = listedLast)

/-- The dump at the set that its next message is about, or the dump at its end if there
is none left. -/
def seek (dump : Dump) (table : Table σ) : Except Fault (Dump × Option (Entry σ)) :=
  let visit (mode : Mode) (slot : Nat) : Dump × Option (Entry σ) :=
    ({ dump with mode, slot }, table.get? slot)
  let second (start : Nat) : Dump × Option (Entry σ) :=
    visit .last ((nextSlot table true start).getD table.capacity)
  match dump.mode with
  | .one =>
      if table.capacity ≤ dump.slot then .ok (dump, none)
      else match table.get? dump.slot with
        | some entry => .ok (dump, some entry)
        | none => .error .setDestroyed
  | .all =>
      match nextSlot table false dump.slot with
      | some slot => .ok (visit .all slot)
      | none => .ok (second 0)
  | .last => .ok (second dump.slot)

/-- Writes what the first message about a set carries besides its name: its type, family
and revision, and a data block with its parameters and the number of references to it,
that of the dump left out. -/
def describe [ForeignStorage σ] (entry : Entry σ) (draft : Message.Draft) :
    Except Fault Message.Draft := do
  let draft ← draft.put (.text Message.Argument.typeNameNumber entry.type.name)
  let draft ← draft.put (Message.Argument.family entry.family.code).tree
  let draft ← draft.put (Message.Argument.revision entry.type.revision).tree
  let draft ← draft.openNest { number := Message.Argument.dataNumber }
  match entry.storage.describe draft with
  | (_, .error fault) => .error fault
  | (described, .ok ()) =>
      let others := if entry.references = 0 then 0 else entry.references - 1
      let described ← described.put (.networkWord Datum.Kind.references.number others)
      .ok described.closeNest

/-- One message about a set: its name, its description if the message is the first one,
and as many elements from a cursor on as there is room for. -/
def message [ForeignStorage σ] (dump : Dump) (table : Table σ) (entry : Entry σ) (limit : Nat)
    (first : Bool) (start : Nat) : Except Fault (Bytes × Nat × Progress) := do
  let draft ← Message.Draft.start limit .list Message.Header.multipart dump.sequence dump.sender
  let draft ← draft.put (Message.Argument.protocol protocolVersion).tree
  let draft ← draft.put (Message.Argument.setName entry.name).tree
  let draft ← if first then describe entry draft else .ok draft
  let draft ← draft.openNest { number := Message.Argument.batchNumber }
  match table.list entry.storage start draft with
  | (_, _, .error fault) => .error fault
  | (listed, cursor, .ok progress) => .ok (listed.closeNest.finish, cursor, progress)

def release (dump : Dump) (table : Table σ) : Table σ × Dump :=
  match dump.cursor with
  | none => (table, dump)
  | some _ => (table.release dump.slot, { dump with cursor := none })

def abort (dump : Dump) (table : Table σ) : Table σ × Dump :=
  let (released, dump) := dump.release table
  (released, { dump with finished := true })

/-- The next message about the set that the dump stands at. A set is left once all its
elements are listed. A message without any element is sent only as the first one about
a set; after that, an element for which a whole message is too small ends the dump. -/
def advance [ForeignStorage σ] (dump : Dump) (table : Table σ) (entry : Entry σ) (limit : Nat) :
    Table σ × Dump × Except Fault (Option Bytes) :=
  let first := dump.cursor.isNone
  let start := dump.cursor.getD 0
  let (held, entry) := if first then (table.hold dump.slot, entry.hold) else (table, entry)
  let dump := { dump with cursor := some start }
  let failing (fault : Fault) :=
    let (released, ended) := dump.abort held
    (released, ended, Except.error fault)
  match dump.message held entry limit first start with
  | .error fault => failing fault
  | .ok (bytes, _, .done) =>
      let slot := if dump.mode = .one then table.capacity else dump.slot + 1
      (held.release dump.slot, { dump with cursor := none, slot }, .ok (some bytes))
  | .ok (bytes, cursor, .more) =>
      if !first && cursor = start then failing .elementDoesNotFit
      else (held, { dump with cursor := some cursor }, .ok (some bytes))

/-- The next message of a dump, the last one being the message that ends it. After that,
and after a fault, there is none. -/
def step [ForeignStorage σ] (dump : Dump) (table : Table σ) (limit : Nat) :
    Table σ × Dump × Except Fault (Option Bytes) :=
  if dump.finished then (table, dump, .ok none)
  else
    match dump.seek table with
    | .error fault =>
        let (released, ended) := dump.abort table
        (released, ended, .error fault)
    | .ok (dump, some entry) => dump.advance table entry limit
    | .ok (dump, none) =>
        (table, { dump with finished := true },
          .ok (some (Message.Done.encode dump.sequence dump.sender 0)))

end Dump

end NamedSets
