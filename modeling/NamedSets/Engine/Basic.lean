import NamedSets.Catalog
import NamedSets.Dump
import NamedSets.Settings
import NamedSets.Table.Packets
import NamedSets.Table.Sets

namespace NamedSets

structure Engine (σ : Type) where
  settings : Settings
  catalog : Catalog σ
  table : Table σ

namespace Engine

variable {σ : Type}

def new (settings : Settings) (loader : Loader) : Engine σ where
  settings
  catalog := { types := [], loader }
  table := Table.empty settings.capacity

/-- The engine with the table that an operation left behind, and its answer. -/
def withTable (engine : Engine σ) {α : Type} (outcome : Table σ × α) : Engine σ × α :=
  ({ engine with table := outcome.1 }, outcome.2)

structure Creation where
  name : SetName
  typeName : String
  family : Family
  revision : UInt8
  data : List Datum
  /-- A set of the same name and the same parameters is as good as a new one. -/
  allowExisting : Bool

variable [ForeignStorage σ]

def create (engine : Engine σ) (creation : Creation) : Engine σ × Except Fault Nat :=
  let (catalog, type?) :=
    engine.catalog.lookupOrLoad creation.typeName creation.family creation.revision
  let engine := { engine with catalog }
  match type? with
  | none => (engine, .error .typeNotFound)
  | some type =>
      match type.maker.make creation.family creation.data with
      | .error fault => (engine, .error fault)
      | .ok storage =>
          engine.withTable (engine.table.create {
            name := creation.name
            family := creation.family
            allowExisting := creation.allowExisting } type storage)

def stepDump (engine : Engine σ) (dump : Dump) : Engine σ × Dump × Except Fault (Option Bytes) :=
  engine.withTable (dump.step engine.table engine.settings.messageSize)

def endDump (engine : Engine σ) (dump : Dump) : Engine σ × Dump :=
  engine.withTable (dump.release engine.table)

end Engine

end NamedSets
