import NamedSets.Attr.Raw
import NamedSets.Datum.Basic

namespace NamedSets.Message

inductive Argument where
  | protocol (version : UInt8)
  | setName (name : SetName)
  /-- The type of a set, or the second name of a rename or a swap. -/
  | typeName (name : SetName)
  | revision (revision : UInt8)
  | family (code : UInt8)
  | flags (flags : UInt32)
  | data (block : Attr.Raw)
  | batch (blocks : Attr.Raw)
  | lineNumber (line : UInt32)
  | leastRevision (revision : UInt8)
deriving DecidableEq

namespace Argument

def protocolNumber : BitVec 14 := 1
def setNameNumber : BitVec 14 := 2
def typeNameNumber : BitVec 14 := 3
def revisionNumber : BitVec 14 := 4
def familyNumber : BitVec 14 := 5
def flagsNumber : BitVec 14 := 6
def dataNumber : BitVec 14 := 7
def batchNumber : BitVec 14 := 8
def lineNumberNumber : BitVec 14 := 9
def leastRevisionNumber : BitVec 14 := 10

def number : Argument → BitVec 14
  | protocol _ => protocolNumber
  | setName _ => setNameNumber
  | typeName _ => typeNameNumber
  | revision _ => revisionNumber
  | family _ => familyNumber
  | flags _ => flagsNumber
  | data _ => dataNumber
  | batch _ => batchNumber
  | lineNumber _ => lineNumberNumber
  | leastRevision _ => leastRevisionNumber

/-- A name, which has to be terminated within its payload. -/
def readName (payload : Bytes) : Except Fault SetName :=
  if (0 : UInt8) ∈ payload then
    match SetName.ofField payload with
    | .ok name => .ok name
    | .error _ => .error .invalidName
  else .error .unterminatedName

def exactly (width : Nat) (make : Nat → Argument) (payload : Bytes) :
    Except Fault (Option Argument) :=
  if payload.length = width then .ok (some (make (Bytes.ofLittle payload)))
  else .error .attributeLength

def named (make : SetName → Argument) (payload : Bytes) : Except Fault (Option Argument) :=
  if 1 ≤ payload.length ∧ payload.length ≤ SetName.fieldWidth then
    match readName payload with
    | .ok name => .ok (some (make name))
    | .error fault => .error fault
  else .error .attributeLength

/-- The argument that an attribute stands for, or nothing if it is to be skipped. -/
def ofRaw (raw : Attr.Raw) : Except Fault (Option Argument) :=
  match raw.tag.number.toNat with
  | 1 => exactly 1 (fun number => .protocol (.ofNat number)) raw.payload
  | 2 => named .setName raw.payload
  | 3 => named .typeName raw.payload
  | 4 => exactly 1 (fun number => .revision (.ofNat number)) raw.payload
  | 5 => exactly 1 (fun number => .family (.ofNat number)) raw.payload
  | 6 => exactly 4 (fun number => .flags (.ofNat number)) raw.payload
  | 7 => .ok (some (.data raw))
  | 8 => .ok (some (.batch raw))
  | 9 => exactly 4 (fun number => .lineNumber (.ofNat number)) raw.payload
  | 10 => exactly 1 (fun number => .leastRevision (.ofNat number)) raw.payload
  | _ => .ok none

def tree : Argument → Attr.Tree
  | protocol version => .octet protocolNumber version
  | setName name => .text setNameNumber name.text
  | typeName name => .text typeNameNumber name.text
  | revision value => .octet revisionNumber value
  | family code => .octet familyNumber code
  | flags value => .word flagsNumber value
  | data block => .value block.tag block.payload
  | batch blocks => .value blocks.tag blocks.payload
  | lineNumber line => .word lineNumberNumber line
  | leastRevision value => .octet leastRevisionNumber value

/-- A data block that is written rather than received. -/
def dataBlock (data : List Datum) : Attr.Tree := .block dataNumber (data.map Datum.tree)

def read (header : Attr.Header) (rest : Bytes) : Except Fault (Option Argument × Nat) :=
  match ofRaw { tag := header.tag, payload := rest.take header.length } with
  | .ok found => .ok (found, header.length)
  | .error fault => .error fault

def readAll (block : Bytes) : Except Fault (List Argument) := Attr.readAll read block

end Argument

end NamedSets.Message
