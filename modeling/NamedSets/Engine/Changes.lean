import NamedSets.Datum.Reader
import NamedSets.Engine.Basic

namespace NamedSets.Engine

open Message (Request)

variable {σ : Type}

def requiredName (request : Request) : Except Fault SetName :=
  match request.setName? with
  | some name => .ok name
  | none => .error .setNameMissing

/-! ## Sets -/

def creationOf (request : Request) : Except Fault Creation :=
  match request.setName?, request.typeName?, request.revision?, request.family? with
  | some name, some typeName, some revision, some code =>
      match Family.ofCode code with
      | .error _ => .error .unsupportedFamily
      | .ok family =>
          let data : Except Fault (List Datum) := match request.data? with
            | some block => Datum.readAll .set block
            | none => .ok []
          match data with
          | .error fault => .error fault
          | .ok data => .ok {
              name, typeName := typeName.text, family, revision, data
              allowExisting := request.header.allowsExisting }
  | _, _, _, _ => .error .createArgumentMissing

def createSet [ForeignStorage σ] (engine : Engine σ) (request : Request) :
    Engine σ × Except Fault Unit :=
  match creationOf request with
  | .error fault => (engine, .error fault)
  | .ok creation =>
      match engine.create creation with
      | (changed, .ok _) => (changed, .ok ())
      | (changed, .error fault) => (changed, .error fault)

def destroySets (engine : Engine σ) (request : Request) : Engine σ × Except Fault Unit :=
  match request.setName? with
  | some name => engine.withTable (engine.table.destroy name.text)
  | none => engine.withTable engine.table.destroyAll

def flushSets [ForeignStorage σ] (engine : Engine σ) (request : Request) :
    Engine σ × Except Fault Unit :=
  match request.setName? with
  | some name => engine.withTable (engine.table.flush name.text)
  | none => engine.withTable (engine.table.flushAll, .ok ())

def renameSet (engine : Engine σ) (request : Request) : Engine σ × Except Fault Unit :=
  match requiredName request with
  | .error fault => (engine, .error fault)
  | .ok name =>
      match request.typeName? with
      | none => (engine, .error .newNameMissing)
      | some newName => engine.withTable (engine.table.rename name.text newName)

def swapSets (engine : Engine σ) (request : Request) : Engine σ × Except Fault Unit :=
  match requiredName request with
  | .error fault => (engine, .error fault)
  | .ok name =>
      match request.typeName? with
      | none => (engine, .error .secondNameMissing)
      | some second => engine.withTable (engine.table.swap name.text second.text)

/-! ## Elements -/

/-- The data blocks of an add or delete request: a single one, or a batch, which needs a
line number that a fault can be reported by. -/
def blocksOf (request : Request) : Except Fault (List Attr.Raw) :=
  match request.data?, request.batch? with
  | some block, none => .ok [block]
  | none, some blocks =>
      if blocks.tag.nested && request.lineNumber?.isSome then blocks.children
      else .error .notOneDataBlock
  | _, _ => .error .notOneDataBlock

def elementData (block : Attr.Raw) : Except Fault (List Datum) :=
  if block.tag.number = Message.Argument.dataNumber then Datum.readAll .element block
  else .error .notDataBlock

/-- The line that an element came from, by its own account or by its position in the
batch, counted from zero. -/
def lineOf (data : List Datum) (position : Nat) : UInt32 :=
  (data.findSome? fun | .lineNumber line => some line | _ => none).getD (.ofNat (position + 1))

/-- Why a batch stopped, and the line of the element that failed, if it got as far as
being read. -/
structure Failure where
  fault : Fault
  line : Option UInt32
deriving DecidableEq, Repr

/-- Whether an element that is already there, or already gone, counts as done. -/
def excuses (allowExisting : Bool) (fault : Fault) : Bool :=
  allowExisting && fault.errno = .element

/-- Applies a change to the elements of a batch in order, up to the first that fails. -/
def applyBatch (change : Table σ → List Datum → Table σ × Except Fault Unit)
    (allowExisting : Bool) : (position : Nat) → List Attr.Raw → Table σ →
      Table σ × Except Failure Unit
  | _, [], table => (table, .ok ())
  | position, block :: rest, table =>
      match elementData block with
      | .error fault => (table, .error { fault, line := none })
      | .ok data =>
          match change table data with
          | (changed, .ok ()) => applyBatch change allowExisting (position + 1) rest changed
          | (changed, .error fault) =>
              if excuses allowExisting fault then
                applyBatch change allowExisting (position + 1) rest changed
              else (changed, .error { fault, line := some (lineOf data position) })

/-- Adds or deletes elements. The request is answered too, with the line of the element
that failed. -/
def changeElements [ForeignStorage σ] (engine : Engine σ) (request : Request) :
    Engine σ × Request × Except Fault Unit :=
  let checked : Except Fault (List Attr.Raw × Nat) := do
    let name ← requiredName request
    let blocks ← blocksOf request
    match engine.table.find? name.text with
    | none => .error .noSuchSet
    | some slot => .ok (blocks, slot)
  match checked with
  | .error fault => (engine, request, .error fault)
  | .ok (blocks, slot) =>
      let change (table : Table σ) (data : List Datum) : Table σ × Except Fault Unit :=
        if request.command = .add then
          table.addElementResizing slot engine.settings.maxResizeRetries.toNat data
        else table.deleteElement slot data
      match applyBatch change request.header.allowsExisting 0 blocks engine.table with
      | (table, .ok ()) => ({ engine with table }, request, .ok ())
      | (table, .error failure) =>
          let echoed := match failure.line with
            | some line => request.withLine line
            | none => request
          ({ engine with table }, echoed, .error failure.fault)

/-- Tests an element. One that a storage would have to complete first is a match. -/
def testElement [ForeignStorage σ] (engine : Engine σ) (request : Request) :
    Engine σ × Except Fault Unit :=
  let checked : Except Fault (List Datum × Nat) := do
    let name ← requiredName request
    let data ← match request.data? with
      | some block => Datum.readAll .element block
      | none => .error .dataMissing
    match engine.table.find? name.text with
    | none => .error .noSuchSet
    | some slot => .ok (data, slot)
  match checked with
  | .error fault => (engine, .error fault)
  | .ok (data, slot) =>
      let (table, result) := engine.table.testElement slot data
      let answer := match result with
        | .ok true => .ok ()
        | .ok false => .error .elementNotInSet
        | .error fault => if fault.errno = .again then .ok () else .error fault
      ({ engine with table }, answer)

end NamedSets.Engine
