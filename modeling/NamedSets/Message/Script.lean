import NamedSets.Message.Draft

/-!
# Scripts

A reply is written step by step. A step that finds no room fails and the draft stays as it was;
whether to go on is up to the writer. An address is written in three steps, which are undone
together.
-/

namespace NamedSets.Message

open Attr (Tag Tree)

inductive Step where
  | octet (number : BitVec 14) (value : UInt8)
  | word (number : BitVec 14) (value : UInt32)
  | networkHalf (number : BitVec 14) (value : UInt16)
  | networkWord (number : BitVec 14) (value : UInt32)
  | text (number : BitVec 14) (value : String)
  | bytes (number : BitVec 14) (value : Bytes)
  | address (number : BitVec 14) (value : Address)
  | openNest (number : BitVec 14)
  | closeNest
  | dropNest
deriving DecidableEq, Repr

namespace Step

/-- The attribute that the step puts, unless it opens or ends a nest. -/
def tree? : Step → Option Tree
  | octet number value => some (.octet number value)
  | word number value => some (.word number value)
  | networkHalf number value => some (.networkHalf number value)
  | networkWord number value => some (.networkWord number value)
  | text number value => some (.text number value)
  | bytes number value => some (.value { number } value)
  | address number value => some (.address number value)
  | openNest _ | closeNest | dropNest => none

def size : Step → Nat
  | openNest _ => Attr.headerLength
  | step => (step.tree?.map Tree.size).getD 0

def ends : Step → Bool
  | closeNest | dropNest => true
  | _ => false

end Step

namespace Draft

/-- The draft after an attempt that leaves it as it was if it fails. -/
def attempt (draft : Draft) : Except Fault Draft → Draft × Except Fault Unit
  | .ok next => (next, .ok ())
  | .error fault => (draft, .error fault)

/-- Puts an attribute into a nest of its own, and drops the nest if the attribute does not fit. -/
def putNested (draft : Draft) (number : BitVec 14) (item : Tree) : Draft × Except Fault Unit :=
  match draft.openNest { number } with
  | .error fault => (draft, .error fault)
  | .ok nested =>
      match nested.put item with
      | .error fault => (nested.dropNest, .error fault)
      | .ok filled => (filled.closeNest, .ok ())

def putAddress (draft : Draft) (number : BitVec 14) (address : Address) :
    Draft × Except Fault Unit :=
  draft.putNested number
    (.value { number := Tree.octetsNumber address, network := true } address.octets)

def perform (draft : Draft) : Step → Draft × Except Fault Unit
  | .octet number value => draft.attempt (draft.put (.octet number value))
  | .word number value => draft.attempt (draft.put (.word number value))
  | .networkHalf number value => draft.attempt (draft.put (.networkHalf number value))
  | .networkWord number value => draft.attempt (draft.put (.networkWord number value))
  | .text number value => draft.attempt (draft.put (.text number value))
  | .bytes number value => draft.attempt (draft.put (.value { number } value))
  | .address number value => draft.putAddress number value
  | .openNest number => draft.attempt (draft.openNest { number })
  | .closeNest => (draft.closeNest, .ok ())
  | .dropNest => (draft.dropNest, .ok ())

/-- Takes steps in order, also behind one that fails. -/
def performAll (draft : Draft) (steps : List Step) : Draft :=
  steps.foldl (fun current step => (current.perform step).1) draft

def compose (draft : Draft) : List Step → Except Fault Draft
  | [] => .ok draft
  | step :: rest =>
      match draft.perform step with
      | (next, .ok ()) => next.compose rest
      | (_, .error fault) => .error fault

/-- Steps end only nests that are open, and leave none open. -/
def Matched (draft : Draft) : List Step → Prop
  | [] => draft.nests.isEmpty = true
  | step :: rest =>
      (step.ends = true → draft.nests.isEmpty = false) ∧ (draft.perform step).1.Matched rest

instance decidableMatched (draft : Draft) : (steps : List Step) → Decidable (draft.Matched steps)
  | [] => inferInstanceAs (Decidable (draft.nests.isEmpty = true))
  | step :: rest =>
      have := decidableMatched (draft.perform step).1 rest
      inferInstanceAs (Decidable ((step.ends = true → draft.nests.isEmpty = false) ∧
        (draft.perform step).1.Matched rest))

structure Moment where
  before : Draft
  step : Step
  after : Draft
  outcome : Except Fault Unit

def moments (draft : Draft) : List Step → List Moment
  | [] => []
  | step :: rest =>
      let (after, outcome) := draft.perform step
      { before := draft, step, after, outcome } :: after.moments rest

end Draft

end NamedSets.Message
