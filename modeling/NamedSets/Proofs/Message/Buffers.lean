import NamedSets.Message.Script
import NamedSets.Proofs.Message.Drafts

/-!
# Replies in memory

A reply is written at the end of its bytes. Only to close a nest are bytes in front of the end
written over, and only to drop one are any taken back. A draft keeps the attributes apart instead;
step by step, its bytes are those of the buffer.
-/

namespace NamedSets.Message

open Attr (Tag Tree)

/-- The bytes behind the head of a reply, and where among them the open nests start, innermost
first. -/
structure Buffer where
  limit : Nat
  bytes : Bytes
  marks : List Nat

def patched (bytes : Bytes) (offset : Nat) (value : Bytes) : Bytes :=
  bytes.take offset ++ value ++ bytes.drop (offset + value.length)

namespace Buffer

def room (buffer : Buffer) : Nat := buffer.limit - (Request.headLength + buffer.bytes.length)

def write (buffer : Buffer) (bytes : Bytes) : Except Fault Buffer :=
  if bytes.length ≤ buffer.room then .ok { buffer with bytes := buffer.bytes ++ bytes }
  else .error .messageFull

def put (buffer : Buffer) (tag : Tag) (payload : Bytes) : Except Fault Buffer :=
  buffer.write (Tree.header tag payload.length ++ payload ++ Bytes.padding payload.length)

def openNest (buffer : Buffer) (number : BitVec 14) : Except Fault Buffer :=
  match buffer.write (Tree.header { number, nested := true } 0) with
  | .ok written => .ok { written with marks := buffer.bytes.length :: buffer.marks }
  | .error fault => .error fault

/-- Writes the length of a nest into its header. -/
def closeNest (buffer : Buffer) : Buffer :=
  match buffer.marks with
  | [] => buffer
  | mark :: outer =>
      { buffer with
        bytes := patched buffer.bytes mark (Bytes.little 2 (buffer.bytes.length - mark))
        marks := outer }

def dropNest (buffer : Buffer) : Buffer :=
  match buffer.marks with
  | [] => buffer
  | mark :: outer => { buffer with bytes := buffer.bytes.take mark, marks := outer }

def attempt (buffer : Buffer) : Except Fault Buffer → Buffer × Except Fault Unit
  | .ok next => (next, .ok ())
  | .error fault => (buffer, .error fault)

def putNested (buffer : Buffer) (number : BitVec 14) (tag : Tag) (payload : Bytes) :
    Buffer × Except Fault Unit :=
  match buffer.openNest number with
  | .error fault => (buffer, .error fault)
  | .ok nested =>
      match nested.put tag payload with
      | .error fault => (nested.dropNest, .error fault)
      | .ok filled => (filled.closeNest, .ok ())

def perform (buffer : Buffer) : Step → Buffer × Except Fault Unit
  | .address number value =>
      buffer.putNested number { number := Tree.octetsNumber value, network := true } value.octets
  | .openNest number => buffer.attempt (buffer.openNest number)
  | .closeNest => (buffer.closeNest, .ok ())
  | .dropNest => (buffer.dropNest, .ok ())
  | step =>
      match step.tree? with
      | some (.value tag payload) => buffer.attempt (buffer.put tag payload)
      | _ => (buffer, .ok ())

def performAll (buffer : Buffer) : List Step → Buffer × List (Except Fault Unit)
  | [] => (buffer, [])
  | step :: rest =>
      let (after, outcome) := buffer.perform step
      let (final, outcomes) := after.performAll rest
      (final, outcome :: outcomes)

end Buffer

namespace Draft

variable {draft : Draft} {step : Step} {number : BitVec 14} {tag : Tag} {payload : Bytes}

@[simp] theorem length_adding (draft : Draft) (trees : List Tree) :
    (draft.adding trees).length = draft.length + Tree.sizeAll trees := rfl

@[simp] theorem length_opening (draft : Draft) (tag : Tag) :
    (draft.opening tag).length = draft.length + Attr.headerLength := rfl

@[simp] theorem limit_adding (draft : Draft) (trees : List Tree) :
    (draft.adding trees).limit = draft.limit := rfl

@[simp] theorem limit_opening (draft : Draft) (tag : Tag) :
    (draft.opening tag).limit = draft.limit := rfl

@[simp] theorem nests_adding (draft : Draft) (trees : List Tree) :
    (draft.adding trees).nests = draft.nests := rfl

@[simp] theorem dropNest_opening (draft : Draft) (tag : Tag) (trees : List Tree) :
    ((draft.opening tag).adding trees).dropNest = draft := rfl

theorem attributes_adding (draft : Draft) (trees : List Tree) :
    (draft.adding trees).attributes = draft.attributes ++ Tree.encodeAll trees := by
  simp [attributes, adding, Tree.encodeAll_append]

theorem attributes_opening (draft : Draft) (tag : Tag) :
    (draft.opening tag).attributes =
      draft.attributes ++ Tree.header { tag with nested := true } 0 := by
  simp [attributes, opening, encodeOpen, Tree.encodeAll]

/-- The length that a draft counts is that of its bytes. -/
def Measured (draft : Draft) : Prop :=
  draft.length = Request.headLength + draft.attributes.length

theorem Measured.adding (measured : draft.Measured) (trees : List Tree) :
    (draft.adding trees).Measured := by
  have same : draft.length = Request.headLength + draft.attributes.length := measured
  rw [Measured, length_adding, attributes_adding, List.length_append, Tree.length_encodeAll, same,
    Nat.add_assoc]

theorem Measured.opening (measured : draft.Measured) (tag : Tag) :
    (draft.opening tag).Measured := by
  have same : draft.length = Request.headLength + draft.attributes.length := measured
  rw [Measured, length_opening, attributes_opening, List.length_append, same, Nat.add_assoc]
  rfl

/-! ## The buffer of a draft -/

def buffer (draft : Draft) : Buffer where
  limit := draft.limit
  bytes := draft.attributes
  marks := draft.nests.map fun nest => nest.lengthBefore - Request.headLength

theorem room_buffer (measured : draft.Measured) : draft.buffer.room = draft.room := by
  rw [Buffer.room, room, measured]
  rfl

theorem buffer_adding (draft : Draft) (trees : List Tree) :
    (draft.adding trees).buffer =
      { draft.buffer with bytes := draft.buffer.bytes ++ Tree.encodeAll trees } := by
  rw [buffer, attributes_adding]
  rfl

theorem buffer_opening (measured : draft.Measured) (tag : Tag) :
    (draft.opening tag).buffer = {
      limit := draft.buffer.limit
      bytes := draft.buffer.bytes ++ Tree.header { tag with nested := true } 0
      marks := draft.buffer.bytes.length :: draft.buffer.marks } := by
  have mark : draft.length - Request.headLength = draft.attributes.length := by
    rw [measured, Nat.add_sub_cancel_left]
  rw [buffer, attributes_opening, opening, List.map_cons, mark]
  rfl

theorem attempt_buffer (draft : Draft) (result : Except Fault Draft) :
    draft.buffer.attempt (result.map buffer) = (draft.attempt result).map buffer id := by
  cases result <;> rfl

theorem put_buffer (measured : draft.Measured) (tag : Tag) (payload : Bytes) :
    draft.buffer.put tag payload = (draft.put (.value tag payload)).map buffer := by
  have size : (Tree.header tag payload.length ++ payload ++ Bytes.padding payload.length).length =
      (Tree.value tag payload).size := Tree.length_encode (.value tag payload)
  rw [Buffer.put, Buffer.write, size, room_buffer measured]
  by_cases fits : (Tree.value tag payload).size ≤ draft.room
  · rw [if_pos fits, put_of_fits fits, Except.map, buffer_adding, Tree.encodeAll, Tree.encodeAll,
      List.append_nil]
    rfl
  · rw [if_neg fits, put, if_neg fits]
    rfl

theorem openNest_buffer (measured : draft.Measured) (number : BitVec 14) :
    draft.buffer.openNest number = (draft.openNest { number }).map buffer := by
  have size : (Tree.header { number, nested := true } 0).length = Attr.headerLength := rfl
  rw [Buffer.openNest, Buffer.write, size, room_buffer measured]
  by_cases fits : Attr.headerLength ≤ draft.room
  · rw [if_pos fits, openNest_of_fits fits, Except.map, buffer_opening measured]
  · rw [if_neg fits, openNest, if_neg fits]
    rfl

/-- Closing a nest writes its length over that of its header and touches nothing else. -/
theorem closeNest_buffer (measured : draft.Measured) (tag : Tag) (trees : List Tree) :
    ((draft.opening tag).adding trees).buffer.closeNest =
      ((draft.opening tag).adding trees).closeNest.buffer := by
  have long : (draft.buffer.bytes ++ Tree.header { tag with nested := true } 0 ++
      Tree.encodeAll trees).length - draft.buffer.bytes.length = 4 + Tree.sizeAll trees := by
    simp only [List.length_append, Tree.header, Bytes.length_little, Tree.length_encodeAll]
    omega
  rw [closeNest_opening, buffer_adding, buffer_adding, buffer_opening measured, Buffer.closeNest]
  simp only [long]
  simp [patched, Tree.encodeAll, Tree.encode, Tree.header, List.drop_append,
    List.drop_of_length_le]

/-- Dropping a nest cuts off what was written since it was opened. -/
theorem dropNest_buffer (measured : draft.Measured) (tag : Tag) (trees : List Tree) :
    ((draft.opening tag).adding trees).buffer.dropNest =
      ((draft.opening tag).adding trees).dropNest.buffer := by
  rw [dropNest_opening, buffer_adding, buffer_opening measured, Buffer.dropNest]
  simp only [List.append_assoc, List.take_left]

/-! ## Steps -/

theorem putNested_buffer (measured : draft.Measured) (number : BitVec 14) (tag : Tag)
    (payload : Bytes) :
    draft.buffer.putNested number tag payload =
      (draft.putNested number (.value tag payload)).map buffer id := by
  rw [Buffer.putNested, openNest_buffer measured, putNested]
  by_cases header : Attr.headerLength ≤ draft.room
  · have inside := measured.opening { number }
    rw [openNest_of_fits header, Except.map]
    simp only [put_buffer inside]
    by_cases fits : (Tree.value tag payload).size ≤ (draft.opening { number }).room
    · have closed := closeNest_buffer measured { number } [.value tag payload]
      rw [put_of_fits fits, Except.map]
      simp only [closed, Prod.map_apply, id_eq]
    · have dropped := dropNest_buffer measured { number } []
      rw [adding_nil] at dropped
      rw [put, if_neg fits, Except.map]
      simp only [dropped, Prod.map_apply, id_eq]
  · rw [openNest, if_neg header]
    rfl

/-- A step that does not end a nest does to the buffer what it does to the draft. -/
theorem perform_buffer (measured : draft.Measured) (goes : step.ends = false) :
    draft.buffer.perform step = (draft.perform step).map buffer id := by
  cases step with
  | address number value => exact putNested_buffer measured number _ value.octets
  | openNest number =>
      change draft.buffer.attempt (draft.buffer.openNest number) = _
      rw [openNest_buffer measured, attempt_buffer]
      rfl
  | closeNest | dropNest => cases goes
  | _ => exact (congrArg _ (put_buffer measured _ _)).trans (attempt_buffer draft _)

end Draft

end NamedSets.Message
