import NamedSets.Bytes

namespace NamedSets.Message

structure Header where
  length : UInt32
  messageType : UInt16
  flags : UInt16
  sequence : UInt32
  sender : UInt32
deriving DecidableEq, Repr

namespace Header

def width : Nat := 16

def encode (header : Header) : Bytes :=
  Bytes.little 4 header.length.toNat ++ Bytes.little 2 header.messageType.toNat ++
    Bytes.little 2 header.flags.toNat ++ Bytes.little 4 header.sequence.toNat ++
    Bytes.little 4 header.sender.toNat

def read? (bytes : Bytes) : Option Header :=
  if (bytes.take width).length < width then none
  else
    let field (start count : Nat) : Nat := Bytes.ofLittle ((bytes.drop start).take count)
    some {
      length := .ofNat (field 0 4)
      messageType := .ofNat (field 4 2)
      flags := .ofNat (field 6 2)
      sequence := .ofNat (field 8 4)
      sender := .ofNat (field 12 4) }

/-- The sender asks for something; other messages are not handled. -/
def isRequest (header : Header) : Bool := header.flags.toNat % 2 = 1

def wantsAck (header : Header) : Bool := header.flags.toNat / 4 % 2 = 1

/-- The sender does not ask for exclusive creation, so something that is already there is
no fault. -/
def allowsExisting (header : Header) : Bool := header.flags.toNat / 512 % 2 = 0

def multipart : UInt16 := 2

/-- The flags that every message may carry; the others are left out. -/
def commonFlags (flags : UInt16) : UInt16 := flags &&& 0x3f

@[simp] theorem length_encode (header : Header) : header.encode.length = width := by
  simp [encode, width]

theorem length_of_read {bytes : Bytes} {header : Header} (found : read? bytes = some header) :
    width ≤ bytes.length := by
  unfold read? at found
  split at found
  · contradiction
  · rename_i long
    simp only [List.length_take] at long
    omega

@[simp] theorem read_encode (header : Header) (rest : Bytes) :
    read? (header.encode ++ rest) = some header := by
  obtain ⟨length, messageType, flags, sequence, sender⟩ := header
  simp [read?, width, encode, List.drop_append, List.take_append, List.drop_of_length_le]

end Header

end NamedSets.Message
