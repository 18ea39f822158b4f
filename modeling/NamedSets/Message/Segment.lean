import NamedSets.Message.Report

namespace NamedSets.Message

inductive Segment where
  | request (request : Request)
  | report (report : Report)
  | done (header : Header) (code : Int32)
deriving DecidableEq

namespace Segment

def read (header : Header) (rest : Bytes) : Except Fault Segment :=
  if header.messageType = Report.messageType then
    match Request.payload header rest with
    | .error fault => .error fault
    | .ok payload =>
        if payload.length < 4 then .error .shortBuffer
        else .ok (.report {
          header
          code := Report.readCode (payload.take 4)
          echoed := payload.drop 4 })
  else if header.messageType = Done.messageType then
    match Request.payload header rest with
    | .error fault => .error fault
    | .ok payload =>
        .ok (.done header (if payload.length < 4 then 0 else Report.readCode (payload.take 4)))
  else
    match Request.read header rest with
    | .error fault => .error fault
    | .ok received => .ok (.request received)

def stride (header : Header) : Nat := Bytes.aligned (header.length.toNat - Header.width)

/-- The messages in a buffer; fewer bytes than a header at its end are no message. -/
def readAll (buffer : Bytes) : Except Fault (List Segment) :=
  match _found : Header.read? buffer with
  | none => .ok []
  | some header =>
      let rest := buffer.drop Header.width
      match read header rest with
      | .error fault => .error fault
      | .ok segment =>
          match readAll (rest.drop (stride header)) with
          | .error fault => .error fault
          | .ok others => .ok (segment :: others)
termination_by buffer.length
decreasing_by
  have long := Header.length_of_read _found
  simp only [Header.width, List.length_drop] at long ⊢
  omega

end Segment

end NamedSets.Message
