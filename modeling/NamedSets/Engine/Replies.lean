import NamedSets.Engine.Changes

namespace NamedSets.Engine

open Message (Request Draft)

variable {σ : Type}

def reply (engine : Engine σ) (request : Request) (trees : List Attr.Tree) :
    Except Fault Bytes := do
  let draft ← Draft.start engine.settings.messageSize request.command 0
    request.header.sequence request.header.sender
  let draft ← draft.put (Message.Argument.protocol protocolVersion).tree
  match draft.putAll trees with
  | (full, .ok ()) => .ok full.finish
  | (_, .error fault) => .error fault

def replyProtocol (engine : Engine σ) (request : Request) : Except Fault Bytes :=
  engine.reply request []

def replyHeader (engine : Engine σ) (request : Request) : Except Fault Bytes := do
  let name ← requiredName request
  match engine.table.lookup? name.text with
  | none => .error .noSuchSet
  | some (_, entry) => engine.reply request [
      (Message.Argument.setName entry.name).tree,
      .text Message.Argument.typeNameNumber entry.type.name,
      (Message.Argument.family entry.family.code).tree,
      (Message.Argument.revision entry.type.revision).tree ]

/-- The revisions of a set type, which is loaded if it is missing. -/
def replyType (engine : Engine σ) (request : Request) : Engine σ × Except Fault Bytes :=
  match request.typeName?, request.family? with
  | some typeName, some code =>
      match Family.ofCode code with
      | .error _ => (engine, .error .unsupportedFamily)
      | .ok family =>
          let (catalog, range?) := engine.catalog.revisionRangeOrLoad typeName.text family
          let engine := { engine with catalog }
          match range? with
          | none => (engine, .error .noSuchType)
          | some (least, greatest) =>
              (engine, engine.reply request [
                (Message.Argument.typeName typeName).tree,
                (Message.Argument.family family.code).tree,
                (Message.Argument.revision greatest).tree,
                (Message.Argument.leastRevision least).tree ])
  | _, _ => (engine, .error .typeOrFamilyMissing)

end NamedSets.Engine
