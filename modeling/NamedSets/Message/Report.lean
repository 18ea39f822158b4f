import NamedSets.Message.Request

namespace NamedSets.Message

structure Report where
  header : Header
  code : Int32
  echoed : Bytes
deriving DecidableEq

namespace Report

def messageType : UInt16 := 2

def encodeCode (code : Int32) : Bytes := Bytes.little 4 code.toBitVec.toNat

def readCode (bytes : Bytes) : Int32 := .ofBitVec (BitVec.ofNat 32 (Bytes.ofLittle bytes))

def failure (fault : Fault) : Int32 := -Int32.ofNat fault.code

def answering (header : Header) (raw : Bytes) (fault? : Option Fault) : Report :=
  let (code, echoed) := match fault? with
    | some fault => (failure fault, raw)
    | none => (0, raw.take Header.width)
  { header := {
      length := .ofNat (Header.width + 4 + echoed.length)
      messageType
      flags := 0
      sequence := header.sequence
      sender := header.sender }
    code
    echoed }

def answer (request : Request) (fault? : Option Fault) : Report :=
  answering request.header request.raw fault?

def encode (report : Report) : Bytes :=
  report.header.encode ++ encodeCode report.code ++ report.echoed ++
    Bytes.padding (Header.width + 4 + report.echoed.length)

end Report

/-- The message that ends a dump, with zero or the code of the fault that cut it off. -/
def Done.messageType : UInt16 := 3

def Done.encode (sequence sender : UInt32) (code : Int32) : Bytes :=
  let header : Header := {
    length := 20
    messageType := Done.messageType
    flags := Header.multipart
    sequence
    sender }
  header.encode ++ Report.encodeCode code

end NamedSets.Message
