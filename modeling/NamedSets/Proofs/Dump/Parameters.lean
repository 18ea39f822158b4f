import NamedSets.Proofs.Dump.Chapters
import NamedSets.Proofs.Storage.Parameters

namespace NamedSets

open Attr (Reads Tree)
open Datum (Kind)

namespace Datum

variable {trees : List Tree} {data : List Datum}

theorem reads_report {kind : Kind} (known : Kind.ofNumber? .set kind.number = some kind)
    (skipped : kind.reader = skip) (value : UInt32) :
    Reads (Datum.read .set) (Tree.networkWord kind.number value).raw none := by
  intro rest
  refine ⟨_, Bytes.le_aligned _, ?_⟩
  have tagged : (Tree.networkWord kind.number value).raw.header.tag.number = kind.number := rfl
  simp only [Datum.read, tagged, known, skipped, skip]
  rfl

def ReadAs (trees : List Tree) (data : List Datum) : Prop :=
  Attr.readAll (Datum.read .set) (Tree.encodeAll trees) = .ok data

theorem ReadAs.nil : ReadAs [] [] := by
  simp [ReadAs, Tree.encodeAll, Attr.readAll]

theorem ReadAs.datum (datum : Datum)
    (known : Kind.ofNumber? .set datum.kind.number = some datum.kind) (rest : ReadAs trees data) :
    ReadAs (datum.tree :: trees) (datum :: data) := by
  have small : datum.tree.size < 65536 := Nat.lt_of_le_of_lt datum.size_tree (by decide)
  exact Attr.readAll_encode (Tree.length_raw_lt small) (reads_tree known) rest

theorem ReadAs.report (kind : Kind) (value : UInt32)
    (known : Kind.ofNumber? .set kind.number = some kind) (skipped : kind.reader = skip)
    (rest : ReadAs trees data) : ReadAs (.networkWord kind.number value :: trees) data := by
  have small : (Tree.networkWord kind.number value).size < 65536 := by
    rw [Attr.Tree.size_networkWord]
    decide
  exact Attr.readAll_encode (Tree.length_raw_lt small) (reads_report known skipped value) rest

end Datum

namespace Entry

variable {σ : Type} [ForeignStorage σ]

open Datum (ReadAs)

theorem readAs_parameters (entry : Entry σ) :
    ReadAs entry.parameters entry.storage.creationData := by
  have references : ReadAs [.networkWord Kind.references.number entry.others] [] :=
    .report .references _ rfl rfl .nil
  unfold parameters
  cases entry.storage with
  | hash hash =>
      have reports : ReadAs (.networkWord Kind.elements.number (.ofNat hash.elements.length) ::
          .networkWord Kind.memorySize.number (ForeignStorage.hashMemory σ hash) :: [.networkWord Kind.references.number entry.others])
          [] :=
        .report .elements _ rfl rfl (.report .memorySize _ rfl rfl references)
      cases masked : hash.netmask with
      | none =>
          simp only [Storage.description, AddressHash.description, Storage.creationData,
            AddressHash.creationData, masked]
          exact .datum _ rfl (.datum _ rfl reports)
      | some length =>
          simp only [Storage.description, AddressHash.description, Storage.creationData,
            AddressHash.creationData, masked]
          exact .datum _ rfl (.datum _ rfl (.datum (.netmask length) rfl reports))
  | list list => exact .datum _ rfl (.report .memorySize _ rfl rfl references)
  | foreign inner => exact references

/-- The description of a set is read as the data that it could have been created from. -/
theorem readAll_parameters (entry : Entry σ) :
    Datum.readAll .set (Tree.block Message.Argument.dataNumber entry.parameters).raw =
      .ok entry.storage.creationData := by
  have read : Attr.readAll (Datum.read .set) (Tree.encodeAll entry.parameters) = _ :=
    entry.readAs_parameters
  simp only [Datum.readAll, Tree.block, Tree.raw, if_true, read]

end Entry

/-- What is read from the description in the first message that a dump sends. -/
theorem Dump.Sending.creationData {σ : Type} [ForeignStorage σ] {table after : Table σ}
    {entry : Entry σ} {dump found final : Dump} {limit : Nat} {bytes : Bytes}
    {messages : List Bytes} {page : Page} {description : Description}
    (sending : Sending limit table dump (bytes :: messages) after final)
    (all : table.AllListable) (large : 512 ≤ limit) (small : limit ≤ 65535)
    (going : dump.finished = false) (sought : dump.seek table = .ok (found, some entry))
    (carried : Carries limit bytes page) (described : page.description = some description) :
    Datum.readAll .set description.parameters = .ok entry.storage.creationData := by
  obtain ⟨sent, other, next, -, read, tells, goes⟩ :=
    found.advance_sends all (seek_ok sought).2.1 large small
  have same : bytes = sent := by
    cases sending with
    | cons first _ =>
        rw [step_of_seek going sought] at first
        obtain ⟨-, -, advanced⟩ | ⟨-, advanced⟩ := goes <;>
          simpa using (congrArg (·.2.2) (first.symm.trans advanced))
  subst same
  cases carried.2.symm.trans read
  rw [tells.parameters description described, Entry.readAll_parameters, storage_shown]

end NamedSets
