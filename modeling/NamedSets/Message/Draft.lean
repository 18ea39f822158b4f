import NamedSets.Attr.Tree
import NamedSets.Fault
import NamedSets.Message.Command
import NamedSets.Message.Request

/-!
# Drafts

A reply under construction. Attributes are added at the end of the innermost open nest
as long as they fit; one that does not fit leaves the draft as it was. Closing a nest
makes it an attribute of the nest around it, and dropping it forgets all that was added
since it was opened.
-/

namespace NamedSets.Message

/-- A nest that is still open, with what was written before it at its level. -/
structure OpenNest where
  tag : Attr.Tag
  before : Array Attr.Tree
  lengthBefore : Nat
deriving Repr

structure Draft where
  limit : Nat
  command : Command
  flags : UInt16
  sequence : UInt32
  sender : UInt32
  length : Nat
  /-- What the innermost open nest holds, or the message if no nest is open. -/
  items : Array Attr.Tree
  /-- The open nests, innermost first. -/
  nests : List OpenNest
deriving Repr

namespace Draft

def start (limit : Nat) (command : Command) (flags : UInt16) (sequence sender : UInt32) :
    Except Fault Draft :=
  if limit < Request.headLength then .error .messageFull
  else .ok {
    limit, command, flags, sequence, sender
    length := Request.headLength, items := #[], nests := [] }

def isEmpty (draft : Draft) : Bool := draft.length = Request.headLength

def room (draft : Draft) : Nat := draft.limit - draft.length

def put (draft : Draft) (tree : Attr.Tree) : Except Fault Draft :=
  if tree.size ≤ draft.room then
    .ok { draft with length := draft.length + tree.size, items := draft.items.push tree }
  else .error .messageFull

def putAll (draft : Draft) : List Attr.Tree → Draft × Except Fault Unit
  | [] => (draft, .ok ())
  | tree :: rest =>
      match draft.put tree with
      | .ok next => next.putAll rest
      | .error fault => (draft, .error fault)

def openNest (draft : Draft) (tag : Attr.Tag) : Except Fault Draft :=
  if Attr.headerLength ≤ draft.room then
    .ok { draft with
      length := draft.length + Attr.headerLength
      items := #[]
      nests := {
        tag := { tag with nested := true }
        before := draft.items
        lengthBefore := draft.length } :: draft.nests }
  else .error .messageFull

/-- Closes the innermost open nest, if there is one. -/
def closeNest (draft : Draft) : Draft :=
  match draft.nests with
  | [] => draft
  | nest :: outer =>
      { draft with
        items := nest.before.push (.nest nest.tag draft.items.toList)
        nests := outer }

def dropNest (draft : Draft) : Draft :=
  match draft.nests with
  | [] => draft
  | nest :: outer =>
      { draft with length := nest.lengthBefore, items := nest.before, nests := outer }

/-- The bytes of the attributes in front of those of the innermost level. A nest that is
still open is a header that announces no payload. -/
def encodeOpen : List OpenNest → Bytes
  | [] => []
  | nest :: outer =>
      encodeOpen outer ++ Attr.Tree.encodeAll nest.before.toList ++ Attr.Tree.header nest.tag 0

def attributes (draft : Draft) : Bytes :=
  encodeOpen draft.nests ++ Attr.Tree.encodeAll draft.items.toList

/-- The finished message. Nobody interprets the family of a reply. -/
def finish (draft : Draft) : Bytes :=
  let header : Header := {
    length := .ofNat draft.length
    messageType := draft.command.messageType
    flags := draft.flags
    sequence := draft.sequence
    sender := draft.sender }
  let body : Body := { family := Family.ipv4.code, version := 0, resource := 0 }
  header.encode ++ body.encode ++ draft.attributes

end Draft

end NamedSets.Message
