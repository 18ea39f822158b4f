import NamedSets.Message.Draft

namespace NamedSets

/-- Steps that succeed have done so one after the other. -/
theorem ok_of_bind {α β : Type} {first : Except Fault α} {next : α → Except Fault β} {value : β}
    (done : first >>= next = .ok value) :
    ∃ middle, first = .ok middle ∧ next middle = .ok value := by
  cases first with
  | error fault => cases done
  | ok middle => exact ⟨middle, rfl, done⟩

namespace Message.Draft

open Attr (Tag Tree)

variable {draft : Draft} {tree : Tree} {trees first second : List Tree} {tag : Tag}

def adding (draft : Draft) (trees : List Tree) : Draft :=
  { draft with
    length := draft.length + Tree.sizeAll trees
    items := draft.items ++ trees }

def opening (draft : Draft) (tag : Tag) : Draft :=
  { draft with
    length := draft.length + Attr.headerLength
    items := #[]
    nests := {
      tag := { tag with nested := true }
      before := draft.items
      lengthBefore := draft.length } :: draft.nests }

@[simp] theorem adding_nil (draft : Draft) : draft.adding [] = draft := by
  simp [adding, Tree.sizeAll]

@[simp] theorem adding_adding (draft : Draft) (first second : List Tree) :
    (draft.adding first).adding second = draft.adding (first ++ second) := by
  have items : draft.items ++ first ++ second = draft.items ++ (first ++ second) := by
    apply Array.toList_inj.mp
    simp
  simp [adding, Tree.sizeAll_append, Nat.add_assoc, items]

@[simp] theorem room_adding (draft : Draft) (trees : List Tree) :
    (draft.adding trees).room = draft.room - Tree.sizeAll trees := by
  simp only [room, adding]
  omega

@[simp] theorem room_opening (draft : Draft) (tag : Tag) :
    (draft.opening tag).room = draft.room - Attr.headerLength := by
  simp only [room, opening]
  omega

theorem put_of_fits (fits : tree.size ≤ draft.room) :
    draft.put tree = .ok (draft.adding [tree]) := by
  simp [put, if_pos fits, adding, Tree.sizeAll]

theorem put_bind {α : Type} (fits : tree.size ≤ draft.room) (next : Draft → Except Fault α) :
    (draft.put tree >>= next) = next (draft.adding [tree]) := by
  rw [put_of_fits fits]
  rfl

theorem putAll_of_fits (fits : Tree.sizeAll trees ≤ draft.room) :
    draft.putAll trees = (draft.adding trees, .ok ()) := by
  induction trees generalizing draft with
  | nil => simp [putAll]
  | cons tree rest ih =>
      have total : tree.size + Tree.sizeAll rest ≤ draft.room := fits
      have first : draft.put tree = .ok (draft.adding [tree]) := put_of_fits (by omega)
      have remaining : Tree.sizeAll rest ≤ (draft.adding [tree]).room := by
        simp only [room_adding, Tree.sizeAll]
        omega
      simp only [putAll, first, ih remaining, adding_adding, List.singleton_append]

theorem openNest_of_fits (fits : Attr.headerLength ≤ draft.room) :
    draft.openNest tag = .ok (draft.opening tag) := by
  simp only [openNest, if_pos fits, opening]

theorem openNest_bind {α : Type} (fits : Attr.headerLength ≤ draft.room)
    (next : Draft → Except Fault α) :
    (draft.openNest tag >>= next) = next (draft.opening tag) := by
  rw [openNest_of_fits fits]
  rfl

/-- A nest that is closed is an attribute of the level around it. -/
@[simp] theorem closeNest_opening (draft : Draft) (tag : Tag) (trees : List Tree) :
    ((draft.opening tag).adding trees).closeNest =
      draft.adding [.nest { tag with nested := true } trees] := by
  simp [closeNest, adding, opening, Tree.sizeAll, Tree.size, Attr.headerLength, Nat.add_assoc]

/-! ## Finished messages -/

def blank (limit : Nat) (command : Command) (flags : UInt16) (sequence sender : UInt32) :
    Draft where
  limit
  command
  flags
  sequence
  sender
  length := Request.headLength
  items := #[]
  nests := []

theorem start_bind {α : Type} {limit : Nat} {command : Command} {flags : UInt16}
    {sequence sender : UInt32} (fits : Request.headLength ≤ limit)
    (next : Draft → Except Fault α) :
    (start limit command flags sequence sender >>= next) =
      next (blank limit command flags sequence sender) := by
  rw [start, if_neg (Nat.not_lt.mpr fits)]
  rfl

@[simp] theorem room_blank (limit : Nat) (command : Command) (flags : UInt16)
    (sequence sender : UInt32) :
    (blank limit command flags sequence sender).room = limit - Request.headLength := rfl

def headerOf (command : Command) (flags : UInt16) (sequence sender : UInt32)
    (trees : List Tree) : Header where
  length := .ofNat (Request.headLength + Tree.sizeAll trees)
  messageType := command.messageType
  flags
  sequence
  sender

def replyBody : Body where
  family := Family.ipv4.code
  version := 0
  resource := 0

theorem finish_adding (limit : Nat) (command : Command) (flags : UInt16) (sequence sender : UInt32)
    (trees : List Tree) :
    ((blank limit command flags sequence sender).adding trees).finish =
      (headerOf command flags sequence sender trees).encode ++
        (replyBody.encode ++ Tree.encodeAll trees) := by
  simp [finish, adding, blank, attributes, encodeOpen, headerOf, replyBody]

theorem length_finish_adding (limit : Nat) (command : Command) (flags : UInt16)
    (sequence sender : UInt32) (trees : List Tree) :
    ((blank limit command flags sequence sender).adding trees).finish.length =
      Request.headLength + Tree.sizeAll trees := by
  simp [finish_adding, Header.width, Body.encode, Request.headLength]
  omega

/-! ## The start of a message -/

/-- What is written outside all nests, from the contents of the innermost one. -/
def rootOf (items : Array Tree) : List OpenNest → List Tree
  | [] => items.toList
  | nest :: outer => rootOf nest.before outer

def root (draft : Draft) : List Tree := rootOf draft.items draft.nests

/-- A later draft of the same message, which starts with what was written outside all nests. -/
structure Continues (draft later : Draft) : Prop where
  command : later.command = draft.command
  flags : later.flags = draft.flags
  sequence : later.sequence = draft.sequence
  sender : later.sender = draft.sender
  root : draft.root <+: later.root

/-- A later draft of the same message in which all nests are open that were open before. -/
structure Encloses (draft later : Draft) : Prop where
  command : later.command = draft.command
  flags : later.flags = draft.flags
  sequence : later.sequence = draft.sequence
  sender : later.sender = draft.sender
  nests : draft.nests <:+ later.nests

variable {middle later : Draft} {nests : List OpenNest} {items : Array Tree}

theorem Continues.refl (draft : Draft) : draft.Continues draft :=
  ⟨rfl, rfl, rfl, rfl, List.prefix_refl _⟩

theorem Continues.trans (first : draft.Continues middle) (second : middle.Continues later) :
    draft.Continues later :=
  ⟨second.command.trans first.command, second.flags.trans first.flags,
    second.sequence.trans first.sequence, second.sender.trans first.sender,
    first.root.trans second.root⟩

theorem rootOf_prefix (items : Array Tree) (tree : Tree) (nests : List OpenNest) :
    rootOf items nests <+: rootOf (items.push tree) nests := by
  cases nests with
  | nil => simp [rootOf]
  | cons nest outer => exact List.prefix_refl _

theorem rootOf_append (items : Array Tree) (opened : List OpenNest) (inside : nests ≠ []) :
    rootOf items (opened ++ nests) = rootOf #[] nests := by
  induction opened generalizing items with
  | nil =>
      cases nests with
      | nil => exact absurd rfl inside
      | cons nest outer => rfl
  | cons nest outer ih => exact ih nest.before

/-- What is written inside a nest leaves alone what is outside of all nests. -/
theorem Encloses.continues (encloses : draft.Encloses later) (inside : draft.nests ≠ []) :
    draft.Continues later := by
  obtain ⟨opened, same⟩ := encloses.nests
  have kept : later.root = draft.root := by
    rw [root, root, ← same, rootOf_append _ opened inside]
    exact (rootOf_append draft.items [] inside).symm
  exact ⟨encloses.command, encloses.flags, encloses.sequence, encloses.sender,
    kept ▸ List.prefix_refl _⟩

theorem put_cases (put : draft.put tree = .ok later) : later = { draft with
    length := draft.length + tree.size, items := draft.items.push tree } := by
  unfold Draft.put at put
  split at put
  · cases put
    rfl
  · contradiction

theorem put_continues (put : draft.put tree = .ok later) : draft.Continues later := by
  rw [put_cases put]
  exact ⟨rfl, rfl, rfl, rfl, rootOf_prefix _ _ _⟩

theorem putAll_encloses (trees : List Tree) (draft : Draft) :
    draft.Encloses (draft.putAll trees).1 := by
  induction trees generalizing draft with
  | nil => exact ⟨rfl, rfl, rfl, rfl, List.suffix_refl _⟩
  | cons tree rest ih =>
      unfold putAll
      split
      · rename_i next put
        have others := ih next
        rw [put_cases put] at others ⊢
        exact ⟨others.command, others.flags, others.sequence, others.sender, others.nests⟩
      · exact ⟨rfl, rfl, rfl, rfl, List.suffix_refl _⟩

theorem openNest_continues (opened : draft.openNest tag = .ok later) :
    draft.Continues later ∧ later.nests ≠ [] := by
  unfold openNest at opened
  split at opened
  · cases opened
    exact ⟨⟨rfl, rfl, rfl, rfl, List.prefix_refl _⟩, List.cons_ne_nil _ _⟩
  · contradiction

theorem closeNest_continues (draft : Draft) : draft.Continues draft.closeNest := by
  cases outside : draft.nests with
  | nil =>
      rw [closeNest, outside]
      exact .refl draft
  | cons nest outer =>
      have kept : draft.root = rootOf nest.before outer := by
        rw [root, outside]
        rfl
      simp only [closeNest, outside]
      exact ⟨rfl, rfl, rfl, rfl, kept ▸ rootOf_prefix _ _ _⟩

theorem encodeOpen_root (nests : List OpenNest) (items : Array Tree) :
    ∃ rest, encodeOpen nests ++ Tree.encodeAll items.toList =
      Tree.encodeAll (rootOf items nests) ++ rest := by
  induction nests generalizing items with
  | nil => exact ⟨[], by simp [encodeOpen, rootOf]⟩
  | cons nest outer ih =>
      obtain ⟨rest, start⟩ := ih nest.before
      refine ⟨rest ++ Tree.header nest.tag 0 ++ Tree.encodeAll items.toList, ?_⟩
      simp only [encodeOpen, start, rootOf, List.append_assoc]

/-- A finished message starts with its header and with what was written outside all nests. -/
theorem exists_finish (draft : Draft) :
    ∃ (header : Header) (rest : Bytes), draft.finish =
        header.encode ++ (replyBody.encode ++ (Tree.encodeAll draft.root ++ rest)) ∧
      header.messageType = draft.command.messageType ∧ header.flags = draft.flags ∧
      header.sequence = draft.sequence ∧ header.sender = draft.sender := by
  obtain ⟨rest, start⟩ := encodeOpen_root draft.nests draft.items
  refine ⟨{
    length := .ofNat draft.length
    messageType := draft.command.messageType
    flags := draft.flags
    sequence := draft.sequence
    sender := draft.sender }, rest, ?_, rfl, rfl, rfl, rfl⟩
  rw [finish, attributes, start, List.append_assoc]
  rfl

end Message.Draft

end NamedSets
