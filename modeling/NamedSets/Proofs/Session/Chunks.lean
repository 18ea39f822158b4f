import NamedSets.Proofs.Session.HashListings
import NamedSets.Proofs.Session.ListListings
import NamedSets.Proofs.Table.Chunks

namespace NamedSets.Session

open Attr (Tree)
open Message (Draft Request)
open Table (Chunk)

variable {σ : Type} [ForeignStorage σ] {session : Session σ} {slot : Nat} {storage : Storage σ}
  {table : Table σ}

/-- A set of addresses or a list of sets, as any use leaves it, is listed into one draft after the
other, whatever room each has, while the slots of its members are occupied. Each chunk adds whole
elements to its draft, ends exactly behind them, and ends the listing if and only if nothing is
left. Once the listing has ended, the chunks have together what a single draft gets in which there
is room for everything. -/
theorem listing_in_chunks {rule : Session σ → Operation σ → Prop}
    (reachable : session.Reachable rule) (stored : session.table.storage? slot = some storage)
    (builtin : ∀ inner, storage ≠ .foreign inner)
    (occupied : ∀ member ∈ storage.members, (table.name? member).isSome)
    (start : Nat) (drafts : List Draft) :
    (∀ chunk ∈ table.chunks storage start drafts,
      ∃ elements left, chunk.Lists table storage elements left) ∧
    ∀ earlier last later, table.chunks storage start drafts = earlier ++ last :: later →
      last.result = .ok .done →
      ∀ wide : Draft,
        Tree.sizeAll (Table.blocks (table.elementsFrom storage start)) ≤ wide.room →
        (table.chunk storage start wide).result = .ok .done ∧
          (earlier ++ [last]).flatMap Chunk.written = (table.chunk storage start wide).written := by
  have ranked : table.Ranked storage := Table.ranked_of_valid builtin occupied fun hash same =>
    reachable.hashesValid slot hash (same ▸ stored)
  have complete := Table.chunks_lists ranked start drafts
  refine ⟨complete, fun earlier last later cut done wide room => ?_⟩
  have among : last ∈ table.chunks storage start drafts := by simp [cut]
  obtain ⟨_, _, lists⟩ := complete last among
  obtain ⟨elements, parts, written⟩ := Table.chunks_written ranked cut
  obtain ⟨ended, whole⟩ := Table.chunk_of_room ranked room
  rw [lists.nothing_left done, List.append_nil] at parts
  exact ⟨ended, by rw [written, whole, parts]⟩

/-! ## Drafts that are too small -/

def draftOf (room : Nat) : Draft := .blank (Request.headLength + room) .list 0 0 0

/-- While all its members are there, the set in a slot is listed into drafts with these rooms up to
these places. The last draft ends the listing, and the drafts get together what a large one gets. -/
def Fills (session : Session Empty) (slot : Nat) (rooms places : List Nat) : Prop :=
  ∃ storage, session.table.storage? slot = some storage ∧
    (∀ member ∈ storage.members, (session.table.name? member).isSome) ∧
    let chunks := session.table.chunks storage 0 (rooms.map draftOf)
    chunks.map Chunk.next = places ∧ chunks.getLast?.map Chunk.result = some (.ok .done) ∧
    chunks.flatMap Chunk.written = (session.table.chunk storage 0 (draftOf 1024)).written

/-- There is no room for the header of an element, for the header of the address in it, and for the
octets or the text in it, before there is room for one or more elements. -/
theorem listing_in_chunks_filled :
    filled.Reachable Balanced ∧ gathered.Reachable Balanced ∧
      filled.Fills 0 [3, 7, 15, 16, 40, 1000] [0, 0, 0, 1, 3, 64] ∧
      gathered.Fills 11 [3, 39, 40, 100, 400] [0, 0, 1, 3, 11] := by
  have fills {session : Session Empty} {slot : Nat} {rooms places : List Nat}
      (reachable : session.Reachable Balanced)
      (evaluated : (session.table.storage? slot).any fun storage =>
        (∀ member ∈ storage.members, (session.table.name? member).isSome) ∧
        (session.table.chunks storage 0 (rooms.map draftOf)).map Chunk.next = places ∧
        ((session.table.chunks storage 0 (rooms.map draftOf)).getLast?.map Chunk.result) =
          some (.ok .done) ∧
        Tree.sizeAll (Table.blocks (session.table.elementsFrom storage 0)) ≤ (draftOf 1024).room) :
      session.Fills slot rooms places := by
    obtain ⟨storage, stored, holds⟩ := (Option.any_eq_true _ _).mp evaluated
    obtain ⟨occupied, ends, final, room⟩ := of_decide_eq_true holds
    obtain ⟨last, found, done⟩ := Option.map_eq_some_iff.mp final
    have cut := List.dropLast_append_getLast? last found
    obtain ⟨-, whole⟩ := listing_in_chunks reachable stored (fun inner => inner.elim) occupied 0
      (rooms.map draftOf)
    obtain ⟨-, same⟩ := whole _ last [] cut.symm done _ room
    exact ⟨storage, stored, occupied, ends, final, by rw [← same, cut]⟩
  exact ⟨filled_reachable, gathered_reachable, fills filled_reachable (by decide +kernel),
    fills gathered_reachable (by decide +kernel)⟩

end NamedSets.Session
