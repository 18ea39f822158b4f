import NamedSets.SetType

/-!
# The catalog of set types

The types that sets can be made of, in the order of their registration. A look-up that
finds nothing may ask a loader for the type and then looks once more.
-/

namespace NamedSets

/-- Where types come from that are asked for and not registered. -/
structure Loader where
  supplies : String → Bool
  /-- The names it was asked for, latest first, if it keeps a record of them. -/
  record : Option (List String) := none

namespace Loader

def absent : Loader where
  supplies _ := false

def builtin : Loader where
  supplies _ := true

def noting (asked : List String) : Loader := { builtin with record := some asked }

def ask (loader : Loader) (name : String) : Loader :=
  { loader with record := loader.record.map (name :: ·) }

end Loader

structure Catalog (σ : Type) where
  types : List (SetType σ) := []
  loader : Loader := .builtin

namespace Catalog

variable {σ : Type}

def lookup (catalog : Catalog σ) (name : String) (family : Family) (revision : UInt8) :
    Option (SetType σ) :=
  catalog.types.find? fun type => type.serves name family && type.revision = revision

/-- Adds a type, unless one is found in its place. -/
def register (catalog : Catalog σ) (type : SetType σ) : Except Fault (Catalog σ) :=
  if type.protocol ≠ protocolVersion then .error .typeProtocol
  else if (catalog.lookup type.name type.family type.revision).isSome then .error .typeRegistered
  else .ok { catalog with types := catalog.types ++ [type] }

def hasKey (name : String) (family : Family) (revision : UInt8) (type : SetType σ) : Bool :=
  type.name = name && type.family = family && type.revision = revision

/-- Takes a type out of the catalog; sets made of it live on. -/
def unregister (catalog : Catalog σ) (name : String) (family : Family) (revision : UInt8) :
    Except Fault (Catalog σ × SetType σ) :=
  match catalog.types.find? (hasKey name family revision) with
  | some type =>
      .ok ({ catalog with types := catalog.types.eraseP (hasKey name family revision) }, type)
  | none => .error .typeNotRegistered

/-- Registers the built-in type of a name, if there is one and its place is free. -/
def loadBuiltin (catalog : Catalog σ) (name : String) : Catalog σ :=
  match SetType.builtin? name with
  | none => catalog
  | some type =>
      match catalog.register type with
      | .ok loaded => loaded
      | .error _ => catalog

def load (catalog : Catalog σ) (name : String) : Catalog σ :=
  let asked := { catalog with loader := catalog.loader.ask name }
  if catalog.loader.supplies name then asked.loadBuiltin name else asked

/-- Starts the record of the loader anew; answers what was in it, in order. -/
def takeAsked (catalog : Catalog σ) : Catalog σ × List String :=
  ({ catalog with loader := { catalog.loader with record := catalog.loader.record.map fun _ => [] } },
    (catalog.loader.record.getD []).reverse)

/-- Looks a type up, with the help of the loader if it is missing. -/
def lookupOrLoad (catalog : Catalog σ) (name : String) (family : Family) (revision : UInt8) :
    Catalog σ × Option (SetType σ) :=
  match catalog.lookup name family revision with
  | some type => (catalog, some type)
  | none =>
      let loaded := catalog.load name
      (loaded, loaded.lookup name family revision)

def revisions (catalog : Catalog σ) (name : String) (family : Family) : List UInt8 :=
  catalog.types.filter (·.serves name family) |>.map (·.revision)

def revisionRange (catalog : Catalog σ) (name : String) (family : Family) :
    Option (UInt8 × UInt8) :=
  match catalog.revisions name family with
  | [] => none
  | first :: rest => some (rest.foldl min first, rest.foldl max first)

def revisionRangeOrLoad (catalog : Catalog σ) (name : String) (family : Family) :
    Catalog σ × Option (UInt8 × UInt8) :=
  match catalog.revisionRange name family with
  | some range => (catalog, some range)
  | none =>
      let loaded := catalog.load name
      (loaded, loaded.revisionRange name family)

end Catalog

end NamedSets
