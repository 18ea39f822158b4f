import NamedSets.Proofs.Message.Reading
import NamedSets.Proofs.Message.Scripts

/-!
# Contents of replies

A reply with any arguments, each written with the step for its form, is read as one request with
these arguments, as long as all of them fit. The data blocks among them are read back with the
data that they were given.
-/

namespace NamedSets

open Attr (Tree)

namespace Datum

variable {block : Block} {datum : Datum}

def step (datum : Datum) : Message.Step :=
  let number := datum.kind.number
  match datum with
  | ip value | ipTo value | ip2 value => .address number value
  | cidr value | proto value | netmask value | probes value | resize value | cidr2 value =>
      .octet number value
  | firstPort value | lastPort value => .networkHalf number value
  | timeout value | elementFlags value | gc value | hashSize value | maxElements value
  | size value => .networkWord number value
  | lineNumber value => .word number value
  | ether octets => .bytes number octets.toList
  | name value | nameRef value => .text number value.text

def Fits (block : Block) : Datum → Prop
  | gc _ | hashSize _ | maxElements _ | netmask _ | probes _ | resize _ | size _ => block = .set
  | ether _ | name _ | nameRef _ | ip2 _ | cidr2 _ => block = .element
  | _ => True

theorem tree_step (datum : Datum) : datum.step.tree? = some datum.tree := by
  cases datum <;> rfl

theorem Fits.known (fits : datum.Fits block) :
    Kind.ofNumber? block datum.kind.number = some datum.kind := by
  cases datum with
  | gc | hashSize | maxElements | netmask | probes | resize | size => cases fits; rfl
  | ether | name | nameRef | ip2 | cidr2 => cases fits; rfl
  | _ => cases block <;> rfl

end Datum

namespace Message

/-- What an argument of a reply is to say. -/
inductive Content where
  | protocol (version : UInt8)
  | setName (name : SetName)
  | typeName (name : SetName)
  | revision (revision : UInt8)
  | family (code : UInt8)
  | flags (flags : UInt32)
  | data (block : Datum.Block) (items : List Datum)
  | batch (elements : List (List Datum))
  | lineNumber (line : UInt32)
  | leastRevision (revision : UInt8)

namespace Content

open Argument

def blockSteps (items : List Datum) : List Step :=
  .openNest dataNumber :: items.map Datum.step ++ [.closeNest]

def steps : Content → List Step
  | protocol version => [.octet protocolNumber version]
  | setName name => [.text setNameNumber name.text]
  | typeName name => [.text typeNameNumber name.text]
  | revision value => [.octet revisionNumber value]
  | family code => [.octet familyNumber code]
  | flags value => [.word flagsNumber value]
  | data _ items => blockSteps items
  | batch elements => .openNest batchNumber :: elements.flatMap blockSteps ++ [.closeNest]
  | lineNumber line => [.word lineNumberNumber line]
  | leastRevision value => [.octet leastRevisionNumber value]

def Fits : Content → Prop
  | data block items => ∀ datum ∈ items, datum.Fits block
  | batch elements => ∀ items ∈ elements, ∀ datum ∈ items, datum.Fits .element
  | _ => True

def Said : Content → Argument → Prop
  | protocol version, argument => argument = .protocol version
  | setName name, argument => argument = .setName name
  | typeName name, argument => argument = .typeName name
  | revision value, argument => argument = .revision value
  | family code, argument => argument = .family code
  | flags value, argument => argument = .flags value
  | data block items, argument =>
      ∃ raw, argument = .data raw ∧ raw.tag = { number := dataNumber, nested := true } ∧
        Datum.readAll block raw = .ok items
  | batch elements, argument =>
      ∃ raw children, argument = .batch raw ∧
        raw.tag = { number := batchNumber, nested := true } ∧ raw.children = .ok children ∧
        List.Forall₂ (fun items child => child.tag = { number := dataNumber, nested := true } ∧
          Datum.readAll .element child = .ok items) elements children
  | lineNumber line, argument => argument = .lineNumber line
  | leastRevision value, argument => argument = .leastRevision value

def tree : Content → Tree
  | protocol version => .octet protocolNumber version
  | setName name => .text setNameNumber name.text
  | typeName name => .text typeNameNumber name.text
  | revision value => .octet revisionNumber value
  | family code => .octet familyNumber code
  | flags value => .word flagsNumber value
  | data _ items => dataBlock items
  | batch elements => .block batchNumber (elements.map dataBlock)
  | lineNumber line => .word lineNumberNumber line
  | leastRevision value => .octet leastRevisionNumber value

def argument : Content → Argument
  | protocol version => .protocol version
  | setName name => .setName name
  | typeName name => .typeName name
  | revision value => .revision value
  | family code => .family code
  | flags value => .flags value
  | data _ items => .data (dataBlock items).raw
  | batch elements => .batch (Tree.block batchNumber (elements.map dataBlock)).raw
  | lineNumber line => .lineNumber line
  | leastRevision value => .leastRevision value

theorem means_argument (content : Content) : Means content.tree content.argument := by
  cases content with
  | protocol | revision | family | leastRevision => exact means_octet fun _ => rfl
  | setName | typeName => exact means_text fun _ => rfl
  | flags | lineNumber => exact means_word fun _ => rfl
  | data | batch => rfl

theorem readAll_element {items : List Datum} (fits : ∀ datum ∈ items, datum.Fits .element) :
    Datum.readAll .element (dataBlock items).raw = .ok items :=
  Datum.readAll_dataBlock fun datum present => (fits datum present).known

/-- An argument whose data may stand where they do, in a reply of limited length, is read back. -/
theorem said_argument {content : Content} (fits : content.Fits)
    (small : content.tree.size < 65536) : content.Said content.argument := by
  cases content with
  | data block items =>
      exact ⟨_, rfl, rfl, Datum.readAll_dataBlock fun datum present => (fits datum present).known⟩
  | batch elements =>
      have parts : Attr.split (Tree.encodeAll (elements.map dataBlock)) =
          .ok ((elements.map dataBlock).map Tree.raw) := by
        refine Attr.split_encodeAll fun block present => ?_
        have inside := Tree.size_le_sizeAll present
        simp only [Content.tree, Tree.block, Tree.size] at small
        omega
      refine ⟨_, _, rfl, rfl, parts, ?_⟩
      rw [List.map_map, List.forall₂_map_right_iff, List.forall₂_same]
      exact fun items present => ⟨rfl, readAll_element (fits items present)⟩
  | _ => rfl

/-! ## Steps that all succeed -/

def Writes (steps : List Step) (trees : List Tree) : Prop :=
  Draft.Leaves (steps.map fun step => (step, .ok ())) trees

theorem Writes.nest {steps : List Step} {trees : List Tree} (number : BitVec 14)
    (writes : Writes steps trees) :
    Writes (.openNest number :: steps ++ [.closeNest]) [.block number trees] := by
  have closed := Draft.Leaves.closed number writes .nil
  rwa [Writes, List.map_append, List.map_cons, List.map_cons]

theorem writes_flatMap {α : Type} {steps : α → List Step} {tree : α → Tree} (items : List α)
    (writes : ∀ item, Writes (steps item) [tree item]) :
    Writes (items.flatMap steps) (items.map tree) := by
  induction items with
  | nil => exact .nil
  | cons item rest ih =>
      rw [Writes, List.flatMap_cons, List.map_append]
      exact (writes item).append ih

theorem writes_datum (datum : Datum) : Writes [datum.step] [datum.tree] :=
  .put datum.tree_step .nil

theorem writes_block (items : List Datum) : Writes (blockSteps items) [dataBlock items] := by
  have inside := writes_flatMap items writes_datum
  rw [← List.map_eq_flatMap] at inside
  exact inside.nest dataNumber

theorem writes_steps (content : Content) : Writes content.steps [content.tree] := by
  cases content with
  | data block items => exact writes_block items
  | batch elements => exact (writes_flatMap elements writes_block).nest batchNumber
  | _ => exact .put rfl .nil

theorem ne_dropNest_of_blockSteps (items : List Datum) :
    ∀ step ∈ blockSteps items, step ≠ .dropNest := by
  have steps (datum : Datum) : datum.step ≠ .dropNest := by cases datum <;> nofun
  simp [blockSteps, or_imp, forall_and, steps]

theorem ne_dropNest_of_steps (content : Content) : ∀ step ∈ content.steps, step ≠ .dropNest := by
  cases content with
  | data block items => exact ne_dropNest_of_blockSteps items
  | batch elements =>
      have inside : ∀ step ∈ elements.flatMap blockSteps, step ≠ .dropNest := by
        intro step present
        obtain ⟨items, -, taken⟩ := List.mem_flatMap.mp present
        exact ne_dropNest_of_blockSteps items step taken
      simpa [steps, or_imp, forall_and] using inside
  | _ => simp [steps]

end Content

namespace Draft

variable {draft final : Draft} {steps : List Step} {step : Step}

theorem Taken.within {next : Draft} (taken : Taken draft step (next, .ok ()))
    (kept : step ≠ .dropNest) (within : draft.length ≤ draft.limit) :
    next.length ≤ next.limit := by
  cases taken with
  | @put _ tree puts fits =>
      have positive : 4 ≤ tree.size := by rw [Tree.size_eq]; omega
      simp only [room, length_adding, limit_adding, Tree.sizeAll] at fits ⊢
      omega
  | opened number fits =>
      simp only [room, length_opening, limit_opening, Attr.headerLength] at fits ⊢
      omega
  | closed =>
      unfold closeNest
      split <;> exact within
  | dropped => contradiction

/-- Steps that all succeed have the effect of their replay. -/
theorem compose_ok (composed : draft.compose steps = .ok final)
    (kept : ∀ step ∈ steps, step ≠ .dropNest) (within : draft.length ≤ draft.limit) :
    final = (steps.map fun step => (step, .ok ())).foldl replay draft ∧
      final.length ≤ final.limit := by
  induction steps generalizing draft with
  | nil => cases composed; exact ⟨rfl, within⟩
  | cons step rest ih =>
      have taken := taken draft step
      unfold compose at composed
      split at composed
      · rename_i next performed
        rw [performed] at taken
        obtain ⟨here, later⟩ := List.forall_mem_cons.mp kept
        obtain ⟨same, inside⟩ := ih composed later (taken.within here within)
        have replayed : next = draft.replay (step, .ok ()) := taken.replay_eq
        exact ⟨by rw [same, replayed]; rfl, inside⟩
      · contradiction

end Draft

def Content.reply (limit : Nat) (command : Command) (flags : UInt16) (sequence sender : UInt32)
    (contents : List Content) : Except Fault Draft := do
  let draft ← Draft.start limit command flags sequence sender
  draft.compose (contents.flatMap Content.steps)

/-- A reply that is written in full, with any contents, is read as one message, of its own length
and bytes, from which the same contents are read in the same order. -/
theorem contents_read_back {limit : Nat} {command : Command} {flags : UInt16}
    {sequence sender : UInt32} {contents : List Content} {draft : Draft} (short : limit < 65536)
    (fits : ∀ content ∈ contents, content.Fits)
    (written : Content.reply limit command flags sequence sender contents = .ok draft) :
    ∃ request, Segment.readAll draft.finish = .ok [.request request] ∧
      request.command = command ∧ request.header.flags = flags ∧
      request.header.sequence = sequence ∧ request.header.sender = sender ∧
      request.header.length.toNat = draft.finish.length ∧ request.raw = draft.finish ∧
      List.Forall₂ Content.Said contents request.arguments := by
  by_cases enough : Request.headLength ≤ limit
  · rw [Content.reply, Draft.start_bind enough] at written
    have kept : ∀ step ∈ contents.flatMap Content.steps, step ≠ .dropNest := by
      intro step present
      obtain ⟨content, -, taken⟩ := List.mem_flatMap.mp present
      exact content.ne_dropNest_of_steps step taken
    obtain ⟨replayed, within⟩ := Draft.compose_ok written kept enough
    have leaves := Content.writes_flatMap contents Content.writes_steps
    obtain rfl : draft =
        (Draft.blank limit command flags sequence sender).adding (contents.map Content.tree) :=
      replayed.trans (leaves.replay_eq _)
    have total : Request.headLength + Tree.sizeAll (contents.map Content.tree) < 65536 :=
      Nat.lt_of_le_of_lt within short
    have meaning : List.Forall₂ Argument.Means (contents.map Content.tree)
        (contents.map Content.argument) := by
      rw [List.forall₂_map_left_iff, List.forall₂_map_right_iff, List.forall₂_same]
      exact fun content _ => content.means_argument
    refine ⟨_, Draft.readAll_finish limit command flags sequence sender meaning total, rfl, rfl, rfl,
      rfl, ?_, (Draft.finish_adding limit command flags sequence sender _).symm, ?_⟩
    · rw [Draft.length_finish_adding]
      exact UInt32.toNat_ofNat_of_lt' (Nat.lt_trans total (by decide))
    · simp only [Draft.replyOf, List.forall₂_map_right_iff, List.forall₂_same]
      intro content present
      have part : content.tree.size ≤ Tree.sizeAll (contents.map Content.tree) :=
        Tree.size_le_sizeAll (List.mem_map_of_mem present)
      exact content.said_argument (fits content present) (by omega)
  · rw [Content.reply, Draft.start, if_pos (Nat.not_le.mp enough)] at written
    contradiction

def sampleName : SetName where
  text := "s"
  nonempty := by decide
  short := by decide
  noNul := by decide

def sampleContents : List Content :=
  [.protocol 7, .setName sampleName, .lineNumber 3, .data .set [.hashSize 64, .maxElements 100],
    .batch [[.ip (.v4 0x0a000001), .cidr 24], [], [.name sampleName, .nameRef sampleName]],
    .lineNumber 4]

theorem contents_read_back_sample :
    (300 < 65536 ∧ ∀ content ∈ sampleContents, content.Fits) ∧
    ∃ draft, Content.reply 300 .save 2 5 9 sampleContents = .ok draft ∧
      ∃ request, Segment.readAll draft.finish = .ok [.request request] ∧
        request.command = .save ∧ request.header.sequence = 5 ∧ request.raw = draft.finish ∧
        List.Forall₂ Content.Said sampleContents request.arguments := by
  have fits : ∀ content ∈ sampleContents, content.Fits := by
    simp [sampleContents, Content.Fits, Datum.Fits]
  have short : 300 < 65536 := by decide
  cases written : Content.reply 300 .save 2 5 9 sampleContents with
  | error fault =>
      have success : (Content.reply 300 .save 2 5 9 sampleContents).isOk = true := by decide +kernel
      rw [written] at success
      contradiction
  | ok draft =>
      obtain ⟨request, read, command, -, sequence, -, -, raw, said⟩ :=
        contents_read_back short fits written
      exact ⟨⟨short, fits⟩, draft, rfl, request, read, command, sequence, raw, said⟩

end Message

end NamedSets
