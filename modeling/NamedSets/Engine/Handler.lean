import NamedSets.Engine.Replies

/-!
# Handling requests

A request is answered by messages or by a dump. A sender without privilege, or one that
speaks another version of the protocol, is refused before anything else is looked at.
-/

namespace NamedSets.Engine

open Message (Request Report)

variable {σ : Type}

inductive Answer where
  | messages (messages : List Bytes)
  | dump (dump : Dump)
deriving DecidableEq

inductive Product where
  | nothing
  | message (message : Bytes)
  | dump (dump : Dump)

/-- Refuses a sender without privilege and one of another protocol version. -/
def check (privileged : Bool) (request : Request) : Except Fault Unit :=
  if privileged then
    match request.protocol? with
    | some version => if version = protocolVersion then .ok () else .error .protocolVersion
    | none => .error .protocolMissing
  else .error .privilegeRequired

def dumpOf (engine : Engine σ) (request : Request) : Except Fault Dump :=
  Dump.start engine.table request.setName? request.header.sequence request.header.sender

def startDump (engine : Engine σ) (privileged : Bool) (request : Request) : Except Fault Dump :=
  match check privileged request with
  | .error fault => .error fault
  | .ok () => if request.command.isDump then engine.dumpOf request else .error .notDump

variable [ForeignStorage σ]

/-- Carries out the command of a request that was not refused. -/
def dispatch (engine : Engine σ) (request : Request) : Engine σ × Request × Except Fault Product :=
  let silent (outcome : Engine σ × Except Fault Unit) :=
    (outcome.1, request, outcome.2.map fun _ => Product.nothing)
  match request.command with
  | .protocol => (engine, request, (engine.replyProtocol request).map .message)
  | .create => silent (engine.createSet request)
  | .destroy => silent (engine.destroySets request)
  | .flush => silent (engine.flushSets request)
  | .rename => silent (engine.renameSet request)
  | .swap => silent (engine.swapSets request)
  | .list | .save => (engine, request, (engine.dumpOf request).map .dump)
  | .add | .delete =>
      let (changed, echoed, result) := engine.changeElements request
      (changed, echoed, result.map fun _ => .nothing)
  | .test => silent (engine.testElement request)
  | .header => (engine, request, (engine.replyHeader request).map .message)
  | .type =>
      let (changed, result) := engine.replyType request
      (changed, request, result.map .message)

/-- Answers a request. A fault is answered by a report alone, a success by the reply of
the command and, if the sender asks for it, an acknowledgement; a dump is not
acknowledged. The request is answered as it is echoed to its sender. -/
def handle (engine : Engine σ) (privileged : Bool) (request : Request) :
    Engine σ × Request × Answer :=
  let (changed, echoed, result) : Engine σ × Request × Except Fault Product :=
    match check privileged request with
    | .ok () => engine.dispatch request
    | .error fault => (engine, request, .error fault)
  let acknowledged (replies : List Bytes) : Answer :=
    .messages (replies ++
      if echoed.header.wantsAck then [(Report.answer echoed none).encode] else [])
  let answer := match result with
    | .ok .nothing => acknowledged []
    | .ok (.message reply) => acknowledged [reply]
    | .ok (.dump dump) => .dump dump
    | .error fault => .messages [(Report.answer echoed (some fault)).encode]
  (changed, echoed, answer)

end NamedSets.Engine
