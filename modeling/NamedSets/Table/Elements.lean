import NamedSets.Table.Members

namespace NamedSets.Table

variable {σ : Type}

/-- The table and the answer after the storage in a slot was replaced by what a storage
operation left behind. -/
def storing (table : Table σ) (id : Nat) {α : Type} (result : Except Fault α)
    (storage : α → Storage σ) : Table σ × Except Fault Unit :=
  match result with
  | .ok value => (table.setStorage id (storage value), .ok ())
  | .error fault => (table, .error fault)

variable [ForeignStorage σ]

def addElement (table : Table σ) (id : Nat) (data : List Datum) : Table σ × Except Fault Unit :=
  match table.get? id with
  | none => (table, .error .noSuchSet)
  | some entry =>
      match entry.storage with
      | .hash hash =>
          table.storing id (do hash.insert (← hash.elementOfData data)) .hash
      | .list list =>
          let (changed, result) := list.add table data
          changed.storing id result .list
      | .foreign storage =>
          let (storage, result) := ForeignStorage.add (ForeignStorage.observe storage table.shown) data
          (table.setStorage id (.foreign storage), result)

def deleteElement (table : Table σ) (id : Nat) (data : List Datum) :
    Table σ × Except Fault Unit :=
  match table.get? id with
  | none => (table, .error .noSuchSet)
  | some entry =>
      match entry.storage with
      | .hash hash =>
          table.storing id (do hash.erase (← hash.elementOfData data)) .hash
      | .list list =>
          let (changed, result) := list.delete table data
          changed.storing id result .list
      | .foreign storage =>
          let (storage, result) := ForeignStorage.delete (ForeignStorage.observe storage table.shown) data
          (table.setStorage id (.foreign storage), result)

def testElement (table : Table σ) (id : Nat) (data : List Datum) : Table σ × Except Fault Bool :=
  match table.get? id with
  | none => (table, .error .noSuchSet)
  | some entry =>
      match entry.storage with
      | .hash hash => (table, (hash.elementOfData data).map hash.contains)
      | .list list => (table, list.test table data)
      | .foreign storage =>
          let (storage, result) := ForeignStorage.test (ForeignStorage.observe storage table.shown) data
          (table.setStorage id (.foreign storage), result)

def resize (table : Table σ) (id : Nat) (again : Bool) : Table σ × Except Fault Unit :=
  match table.get? id with
  | none => (table, .error .noSuchSet)
  | some entry =>
      let (storage, result) := entry.storage.resize again
      (table.setStorage id storage, result)

/-! ## Adding with resizes -/

/-- Adds to a state; whenever the add answers `again`, resizes and adds once more, at most
`retries` times. `resized` tells the resize whether it has been tried before. -/
def settle {State : Type} (add : State → State × Except Fault Unit)
    (resize : Bool → State → State × Except Fault Unit) :
    (retries : Nat) → (resized : Bool) → State → State × Except Fault Unit
  | retries, resized, state =>
      match add state with
      | (added, .ok ()) => (added, .ok ())
      | (added, .error fault) =>
          match fault.errno, retries with
          | .again, retries + 1 =>
              match resize resized added with
              | (grown, .ok ()) => settle add resize retries true grown
              | (grown, .error refusal) => (grown, .error refusal)
          | _, _ => (added, .error fault)

/-- Adds an element to the set in a slot and lets the set grow if it has to. -/
def addElementResizing (table : Table σ) (id : Nat) (retries : Nat) (data : List Datum) :
    Table σ × Except Fault Unit :=
  settle (fun table => table.addElement id data) (fun again table => table.resize id again)
    retries false table

/-! ## Listing -/

/-- Writes elements to a draft, each as a whole, until one does not fit. The cursor moves
behind every element written or passed over. -/
def write (draft : Message.Draft) (cursor : Nat) :
    List (Option Attr.Tree × Nat) → Message.Draft × Nat × Progress
  | [] => (draft, cursor, .done)
  | (none, next) :: rest => write draft next rest
  | (some tree, next) :: rest =>
      match draft.put tree with
      | .ok written => write written next rest
      | .error _ => (draft, cursor, .more)

def list (table : Table σ) (storage : Storage σ) (cursor : Nat) (draft : Message.Draft) :
    Message.Draft × Nat × Except Fault Progress :=
  match storage with
  | .hash hash =>
      let (written, next, progress) := write draft cursor (hash.listing cursor)
      (written, next, .ok progress)
  | .list list =>
      let (written, next, progress) := write draft cursor (list.listing table cursor)
      (written, next, .ok progress)
  | .foreign storage => ForeignStorage.list (ForeignStorage.observe storage table.shown) cursor draft

end NamedSets.Table
