import Mathlib.Data.List.Forall2
import NamedSets.Message.Segment
import NamedSets.Proofs.Datum.Reading
import NamedSets.Proofs.Message.Drafts

namespace NamedSets.Message

open Attr (Reads Tree)

variable {tree : Tree} {trees : List Tree} {arguments : List Argument} {argument : Argument}

/-! ## Arguments -/

namespace Argument

def Means (tree : Tree) (argument : Argument) : Prop := ofRaw tree.raw = .ok (some argument)

theorem Means.reads (means : Means tree argument) : Reads read tree.raw (some argument) := by
  intro rest
  refine ⟨tree.raw.payload.length, Bytes.le_aligned _, ?_⟩
  have understood : ofRaw { tag := tree.raw.tag, payload := tree.raw.payload } =
      .ok (some argument) := means
  simp only [read, Attr.Raw.header, List.take_left, understood]

theorem readAll_encodeAll (meaning : List.Forall₂ Means trees arguments)
    (short : ∀ tree ∈ trees, 4 + tree.raw.payload.length < 65536) :
    readAll (Tree.encodeAll trees) = .ok arguments := by
  induction meaning with
  | nil => simp [readAll, Tree.encodeAll, Attr.readAll]
  | cons means _ ih =>
      exact Attr.readAll_encode (short _ List.mem_cons_self) means.reads
        (ih fun other present => short other (List.mem_cons_of_mem _ present))

theorem readName_terminated (name : SetName) :
    readName (Bytes.ofText name.text ++ [0]) = .ok name := by
  simp [readName, name.ofField_terminated []]

theorem means_text {number : BitVec 14} {name : SetName} {make : SetName → Argument}
    (known : ∀ payload, ofRaw { tag := { number }, payload } = named make payload) :
    Means (.text number name.text) (make name) := by
  have short := name.short
  have inside : 1 ≤ (Bytes.ofText name.text ++ [0]).length ∧
      (Bytes.ofText name.text ++ [0]).length ≤ SetName.fieldWidth := by
    simp only [List.length_append, List.length_singleton, SetName.fieldWidth]
    omega
  simp only [Means, Tree.text, Tree.raw, known, named, if_pos inside, readName_terminated]

theorem means_octet {number : BitVec 14} {value : UInt8} {make : UInt8 → Argument}
    (known : ∀ payload, ofRaw { tag := { number }, payload } =
      exactly 1 (fun number => make (.ofNat number)) payload) :
    Means (.octet number value) (make value) := by
  simp [Means, Tree.octet, Tree.raw, known, exactly, Bytes.ofLittle]

theorem means_word {number : BitVec 14} {value : UInt32} {make : UInt32 → Argument}
    (known : ∀ payload, ofRaw { tag := { number }, payload } =
      exactly 4 (fun number => make (.ofNat number)) payload) :
    Means (.word number value) (make value) := by
  simp [Means, Tree.word, Tree.raw, known, exactly]

/-- Blocks are arguments under their numbers only. -/
def WellTagged : Argument → Prop
  | data block => block.tag.number = dataNumber
  | batch blocks => blocks.tag.number = batchNumber
  | _ => True

theorem means_tree (tagged : argument.WellTagged) : Means argument.tree argument := by
  cases argument with
  | protocol _ | revision _ | family _ | leastRevision _ => exact means_octet fun _ => rfl
  | setName _ | typeName _ => exact means_text fun _ => rfl
  | flags _ | lineNumber _ => exact means_word fun _ => rfl
  | data block | batch block =>
      have number := congrArg BitVec.toNat tagged
      simp only [dataNumber, batchNumber] at number
      simp only [Means, tree, Tree.raw, ofRaw, number]
      rfl

theorem means_dataBlock (trees : List Tree) :
    Means (.block dataNumber trees) (.data (Tree.block dataNumber trees).raw) := rfl

theorem means_batch (trees : List Tree) :
    Means (.block batchNumber trees) (.batch (Tree.block batchNumber trees).raw) := rfl

end Argument

/-! ## A single message -/

section Single

variable {header : Header} {payload : Bytes} {segment : Segment}

theorem Request.payload_padded (length : header.length.toNat = Header.width + payload.length)
    (fill : Bytes) : Request.payload header (payload ++ fill) = .ok payload := by
  simp only [Request.payload, length, Nat.add_sub_cancel_left, List.take_left]
  simp

theorem Request.payload_exact (length : header.length.toNat = Header.width + payload.length) :
    Request.payload header payload = .ok payload := by
  simpa using Request.payload_padded length []

/-- A message may be followed by the bytes that align it. -/
theorem Segment.readAll_padded {fill : Bytes}
    (read : Segment.read header (payload ++ fill) = .ok segment)
    (length : header.length.toNat = Header.width + payload.length)
    (short : payload.length + fill.length ≤ Bytes.aligned payload.length) :
    Segment.readAll (header.encode ++ (payload ++ fill)) = .ok [segment] := by
  have found := Header.read_encode header (payload ++ fill)
  have rest : (header.encode ++ (payload ++ fill)).drop Header.width = payload ++ fill :=
    List.drop_left' header.length_encode
  have nothing : (payload ++ fill).drop (stride header) = [] := by
    rw [stride, length, Nat.add_sub_cancel_left]
    exact List.drop_of_length_le (List.length_append ▸ short)
  have ended : Segment.readAll [] = .ok [] := by
    rw [Segment.readAll]
    rfl
  rw [Segment.readAll]
  split
  · simp_all
  · rename_i other same
    cases found.symm.trans same
    simp only [rest, read, nothing, ended]

theorem Segment.readAll_single (read : Segment.read header payload = .ok segment)
    (length : header.length.toNat = Header.width + payload.length) :
    Segment.readAll (header.encode ++ payload) = .ok [segment] := by
  rw [← List.append_nil payload] at read ⊢
  exact Segment.readAll_padded read length (Bytes.le_aligned _)

end Single

/-! ## Replies -/

namespace Draft

def replyOf (command : Command) (flags : UInt16) (sequence sender : UInt32) (trees : List Tree)
    (arguments : List Argument) : Request where
  header := headerOf command flags sequence sender trees
  body := replyBody
  command
  arguments
  raw := (headerOf command flags sequence sender trees).encode ++
    (replyBody.encode ++ Tree.encodeAll trees)

theorem ofPayload_reply {command : Command} {header : Header}
    (read : Argument.readAll (Tree.encodeAll trees) = .ok arguments) :
    Request.ofPayload header command (replyBody.encode ++ Tree.encodeAll trees) =
      .ok {
        header
        body := replyBody
        command
        arguments
        raw := header.encode ++ (replyBody.encode ++ Tree.encodeAll trees) } := by
  have resource : replyBody.encode = [Family.ipv4.code, 0, 0, 0] := by decide
  simp only [Request.ofPayload, resource, List.cons_append, List.nil_append, read]
  rfl

/-- A finished reply is read as one request with its arguments. -/
theorem readAll_finish (limit : Nat) (command : Command) (flags : UInt16)
    (sequence sender : UInt32) (meaning : List.Forall₂ Argument.Means trees arguments)
    (small : Request.headLength + Tree.sizeAll trees < 65536) :
    Segment.readAll ((blank limit command flags sequence sender).adding trees).finish =
      .ok [.request (replyOf command flags sequence sender trees arguments)] := by
  have read : Argument.readAll (Tree.encodeAll trees) = .ok arguments := by
    refine Argument.readAll_encodeAll meaning fun tree present => Tree.length_raw_lt ?_
    have part := Tree.size_le_sizeAll present
    omega
  have length : (headerOf command flags sequence sender trees).length.toNat =
      Header.width + (replyBody.encode ++ Tree.encodeAll trees).length := by
    have fits : Request.headLength + Tree.sizeAll trees < UInt32.size :=
      Nat.lt_trans small (by decide)
    have announced : (headerOf command flags sequence sender trees).length.toNat =
        Request.headLength + Tree.sizeAll trees := UInt32.toNat_ofNat_of_lt' fits
    simp only [announced, Request.headLength, Header.width, Body.encode, List.length_append,
      Bytes.length_little, Tree.length_encodeAll, List.length_cons, List.length_nil]
    omega
  have type : (headerOf command flags sequence sender trees).messageType =
      command.messageType := rfl
  have foreign : command.messageType ≠ Report.messageType ∧
      command.messageType ≠ Done.messageType := by
    cases command <;> decide
  rw [finish_adding]
  refine Segment.readAll_single ?_ length
  simp only [Segment.read, type, if_neg foreign.1, if_neg foreign.2, Request.read,
    Command.ofMessageType_messageType, Request.payload_exact length, ofPayload_reply read, replyOf]

end Draft

/-! ## The end of a dump -/

@[simp] theorem Report.readCode_encodeCode (code : Int32) :
    Report.readCode (Report.encodeCode code) = code := by
  have whole : Bytes.ofLittle (Report.encodeCode code) = code.toBitVec.toNat := by
    rw [Report.encodeCode, Bytes.ofLittle_little]
    exact Nat.mod_eq_of_lt code.toBitVec.isLt
  rw [Report.readCode, whole, BitVec.ofNat_toNat, BitVec.setWidth_eq]
  rfl

def Done.headerOf (sequence sender : UInt32) : Header where
  length := 20
  messageType := Done.messageType
  flags := Header.multipart
  sequence
  sender

theorem Done.readAll_encode (sequence sender : UInt32) (code : Int32) :
    Segment.readAll (Done.encode sequence sender code) =
      .ok [.done (headerOf sequence sender) code] := by
  have width : (Report.encodeCode code).length = 4 := Bytes.length_little 4 _
  have length : (headerOf sequence sender).length.toNat =
      Header.width + (Report.encodeCode code).length := by
    rw [width]
    rfl
  have type : (headerOf sequence sender).messageType = Done.messageType := rfl
  have other : Done.messageType ≠ Report.messageType := by decide
  change Segment.readAll ((headerOf sequence sender).encode ++ Report.encodeCode code) = _
  refine Segment.readAll_single ?_ length
  simp only [Segment.read, type, if_neg other, if_true, Request.payload_exact length, width,
    Nat.lt_irrefl, if_false, List.take_of_length_le (Nat.le_of_eq width),
    Report.readCode_encodeCode]

end NamedSets.Message
