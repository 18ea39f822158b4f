import NamedSets.Message.Argument
import NamedSets.Message.Command
import NamedSets.Message.Header

namespace NamedSets.Message

structure Body where
  family : UInt8
  version : UInt8
  resource : UInt16
deriving DecidableEq, Repr

def Body.encode (body : Body) : Bytes :=
  [body.family, body.version] ++ Bytes.little 2 body.resource.toNat

structure Request where
  header : Header
  body : Body
  command : Command
  arguments : List Argument
  /-- The message as received, which a failing sender gets back. -/
  raw : Bytes
deriving DecidableEq

namespace Request

def payload (header : Header) (rest : Bytes) : Except Fault Bytes :=
  let length := header.length.toNat - Header.width
  if header.length.toNat < Header.width then .error .segmentLength
  else if (rest.take length).length < length then .error .shortBuffer
  else .ok (rest.take length)

def ofPayload (header : Header) (command : Command) (payload : Bytes) : Except Fault Request :=
  match payload with
  | family :: version :: resource₀ :: resource₁ :: block =>
      match Argument.readAll block with
      | .ok arguments => .ok {
          header
          body := { family, version, resource := .ofNat (Bytes.ofLittle [resource₀, resource₁]) }
          command
          arguments
          raw := header.encode ++ payload }
      | .error fault => .error fault
  | _ => .error .missingBody

def read (header : Header) (rest : Bytes) : Except Fault Request :=
  match Command.ofMessageType header.messageType with
  | .error fault => .error fault
  | .ok command =>
      match payload header rest with
      | .error fault => .error fault
      | .ok payload => ofPayload header command payload

def protocol? (request : Request) : Option UInt8 :=
  request.arguments.findSome? fun | .protocol version => some version | _ => none

def setName? (request : Request) : Option SetName :=
  request.arguments.findSome? fun | .setName name => some name | _ => none

/-- The type name, which is also the second name of a rename or a swap. -/
def typeName? (request : Request) : Option SetName :=
  request.arguments.findSome? fun | .typeName name => some name | _ => none

def revision? (request : Request) : Option UInt8 :=
  request.arguments.findSome? fun | .revision revision => some revision | _ => none

def family? (request : Request) : Option UInt8 :=
  request.arguments.findSome? fun | .family code => some code | _ => none

def leastRevision? (request : Request) : Option UInt8 :=
  request.arguments.findSome? fun | .leastRevision revision => some revision | _ => none

def data? (request : Request) : Option Attr.Raw :=
  request.arguments.findSome? fun | .data block => some block | _ => none

def batch? (request : Request) : Option Attr.Raw :=
  request.arguments.findSome? fun | .batch blocks => some blocks | _ => none

def lineNumber? (request : Request) : Option UInt32 :=
  request.arguments.findSome? fun | .lineNumber line => some line | _ => none

def headLength : Nat := 20

/-- The request with a line number in place of the one it carries, both among its
arguments and in its bytes, so that an error answer shows it to the sender. -/
def withLine (request : Request) (line : UInt32) : Request :=
  { request with
    arguments := request.arguments.map fun
      | .lineNumber _ => .lineNumber line
      | other => other
    raw := request.raw.take headLength ++
      Attr.overwriteFirst Argument.lineNumberNumber (Bytes.little 4 line.toNat)
        (request.raw.drop headLength) }

end Request

end NamedSets.Message
