import NamedSets.Engine.Handler

namespace NamedSets

structure Client where
  privileged : Bool
  queue : List Bytes
  dump : Option Dump
deriving DecidableEq

namespace Client

open Message (Header Request Report)

variable {σ : Type}

def connect (privileged : Bool) : Client where
  privileged
  queue := []
  dump := none

def enqueue (client : Client) (messages : List Bytes) : Client :=
  { client with queue := client.queue ++ messages }

def request [ForeignStorage σ] (client : Client) (engine : Engine σ) (request : Request) :
    Engine σ × Client :=
  if request.command.isDump && client.dump.isSome then
    (engine, client.enqueue [(Report.answer request (some .dumpInProgress)).encode])
  else
    match engine.handle client.privileged request with
    | (changed, _, .messages messages) => (changed, client.enqueue messages)
    | (changed, _, .dump dump) => (changed, { client with dump := some dump })

/-- Carries out what a message asks for, given its header and its payload. A message that
is no request is ignored; one that cannot be read is answered by a report. -/
def receive [ForeignStorage σ] (client : Client) (engine : Engine σ) (header : Header)
    (payload : Bytes) : Engine σ × Client :=
  if header.isRequest then
    match Request.read header payload with
    | .ok request => client.request engine request
    | .error fault =>
        let report := Report.answering header (header.encode ++ payload) (some fault)
        (engine, client.enqueue [report.encode])
  else (engine, client)

/-- Carries out every message in a buffer of which `taken` bytes have been read, and
answers how many bytes were read in the end. A message of impossible length ends the
reading with a fault; what came before it stays done. -/
def sendFrom [ForeignStorage σ] (taken : Nat) (client : Client) (engine : Engine σ)
    (buffer : Bytes) : Engine σ × Client × Except Fault Nat :=
  match _found : Header.read? buffer with
  | none => (engine, client, .ok taken)
  | some header =>
      let rest := buffer.drop Header.width
      match Request.payload header rest with
      | .error fault => (engine, client, .error fault)
      | .ok payload =>
          let (engine, client) := client.receive engine header payload
          let stride := (rest.take (Bytes.aligned payload.length)).length
          sendFrom (taken + Header.width + stride) client engine (rest.drop stride)
termination_by buffer.length
decreasing_by
  have long := Header.length_of_read _found
  simp only [Header.width, List.length_drop] at long ⊢
  omega

/-- Carries out the messages in a buffer and answers how many bytes were read. -/
def send [ForeignStorage σ] (client : Client) (engine : Engine σ) (buffer : Bytes) :
    Engine σ × Client × Except Fault Nat :=
  client.sendFrom 0 engine buffer

/-- The next message for the client: the oldest reply, or else the next message of its
dump. A fault of the dump is told in the message that ends it. -/
def recv [ForeignStorage σ] (client : Client) (engine : Engine σ) :
    Engine σ × Client × Option Bytes :=
  match client.queue, client.dump with
  | message :: rest, _ => (engine, { client with queue := rest }, some message)
  | [], none => (engine, client, none)
  | [], some dump =>
      let (engine, dump, result) := engine.stepDump dump
      let message := match result with
        | .ok message => message
        | .error fault =>
            some (Message.Done.encode dump.sequence dump.sender (Report.failure fault))
      (engine, { client with dump := if dump.finished then none else some dump }, message)

def close (client : Client) (engine : Engine σ) : Engine σ × Client :=
  let engine := match client.dump with
    | some dump => (engine.endDump dump).1
    | none => engine
  (engine, { client with queue := [], dump := none })

end Client

end NamedSets
