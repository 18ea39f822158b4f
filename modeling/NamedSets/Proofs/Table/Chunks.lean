import NamedSets.Proofs.Dump.Page
import NamedSets.Proofs.Message.Scripts
import NamedSets.Proofs.Table.Listable

/-!
# Listings in chunks

A listing that finds no more room goes on in another draft, from where it ended. Wherever within
the attributes of an element the room runs out, the element is written as a whole or not at all, so
that all drafts together get what a single large one would have got.
-/

namespace NamedSets

open Attr (Tree)
open Message (Argument Draft Step)

/-! ## Elements in steps -/

namespace Message.Draft

variable {draft : Draft} {step : Step} {tree : Tree}

theorem perform_put (draft : Draft) (puts : step.tree? = some tree) :
    draft.perform step = draft.attempt (draft.put tree) := by
  cases step with
  | address number value =>
      cases puts
      exact draft.putNested_eq number _
  | openNest | closeNest | dropNest => contradiction
  | _ =>
      cases puts
      rfl

def performNested (draft : Draft) (number : BitVec 14) (step : Step) : Draft × Except Fault Unit :=
  match draft.perform (.openNest number) with
  | (full, .error fault) => (full, .error fault)
  | (nested, .ok ()) =>
      match nested.perform step with
      | (cut, .error fault) => ((cut.perform .dropNest).1, .error fault)
      | (filled, .ok ()) => filled.perform .closeNest

theorem performNested_eq (draft : Draft) (number : BitVec 14) (puts : step.tree? = some tree) :
    draft.performNested number step = draft.attempt (draft.put (.block number [tree])) := by
  rw [← putNested_eq, performNested, putNested, perform]
  cases draft.openNest { number } with
  | error fault => rfl
  | ok nested =>
      simp only [attempt, perform_put nested puts]
      cases nested.put tree with
      | error fault => rfl
      | ok filled => rfl

end Message.Draft

namespace Table

variable {σ : Type} {table : Table σ} {storage : Storage σ} {start : Nat}

/-- How the elements of a storage are written from a place on, each with the place behind it. A
member whose slot is empty is passed over. -/
def steps (table : Table σ) : Storage σ → Nat → List (Option Step × Nat)
  | .hash hash, start => (hash.elements.filter (start ≤ ·.1)).map fun (sequence, address) =>
      (some (.address Datum.Kind.ip.number address), sequence + 1)
  | .list list, start => ((list.members.drop start).zipIdx (start + 1)).map fun (member, next) =>
      ((table.name? member).map fun name => .text Datum.Kind.name.number name.text, next)
  | .foreign _, _ => []

def writeSteps (draft : Draft) (cursor : Nat) :
    List (Option Step × Nat) → Draft × Nat × Progress
  | [] => (draft, cursor, .done)
  | (none, next) :: rest => writeSteps draft next rest
  | (some step, next) :: rest =>
      match draft.performNested Argument.dataNumber step with
      | (written, .ok ()) => writeSteps written next rest
      | (cut, .error _) => (cut, cursor, .more)

def block? (step : Step) : Option Tree :=
  step.tree?.map fun tree => .block Argument.dataNumber [tree]

theorem writeSteps_eq (draft : Draft) (cursor : Nat) {entries : List (Option Step × Nat)}
    (puts : ∀ entry ∈ entries, ∀ step ∈ entry.1, step.tree?.isSome) :
    writeSteps draft cursor entries =
      write draft cursor (entries.map fun entry => (entry.1.bind block?, entry.2)) := by
  induction entries generalizing draft cursor with
  | nil => rfl
  | cons entry rest ih =>
      obtain ⟨step?, next⟩ := entry
      obtain ⟨here, later⟩ := List.forall_mem_cons.mp puts
      cases step? with
      | none => exact ih draft next later
      | some step =>
          obtain ⟨tree, put⟩ := Option.isSome_iff_exists.mp (here step rfl)
          simp only [writeSteps, draft.performNested_eq _ put, List.map_cons, Option.bind_some,
            block?, put, Option.map_some, write]
          cases draft.put (.block Argument.dataNumber [tree]) with
          | error fault => rfl
          | ok written => exact ih written next later

/-- The elements of a built-in storage are listed as if each were written step by step. -/
theorem list_eq_writeSteps [ForeignStorage σ] (table : Table σ)
    (builtin : ∀ inner, storage ≠ .foreign inner) (start : Nat) (draft : Draft) :
    table.list storage start draft =
      let (after, next, progress) := writeSteps draft start (table.steps storage start)
      (after, next, .ok progress) := by
  cases storage with
  | hash hash =>
      have puts : ∀ entry ∈ table.steps (.hash hash) start, ∀ step ∈ entry.1,
          step.tree?.isSome := by
        intro entry present
        obtain ⟨element, -, rfl⟩ := List.mem_map.mp present
        simp [Step.tree?]
      have same : (table.steps (.hash hash) start).map
          (fun entry => (entry.1.bind block?, entry.2)) = hash.listing start := by
        simp only [steps, List.map_map]
        rfl
      rw [writeSteps_eq draft start puts, same]
      rfl
  | list list =>
      have puts : ∀ entry ∈ table.steps (.list list) start, ∀ step ∈ entry.1,
          step.tree?.isSome := by
        intro entry present step written
        obtain ⟨member, -, rfl⟩ := List.mem_map.mp present
        obtain ⟨name, -, rfl⟩ := Option.map_eq_some_iff.mp written
        rfl
      have same : (table.steps (.list list) start).map
          (fun entry => (entry.1.bind block?, entry.2)) = list.listing table start := by
        simp only [steps, List.map_map, SetList.listing]
        refine List.map_congr_left fun placed _ => ?_
        cases named : table.name? placed.1 with
        | none => simp [named]
        | some name =>
            simp only [Function.comp_apply, named]
            rfl
      rw [writeSteps_eq draft start puts, same]
      rfl
  | foreign inner => exact absurd rfl (builtin inner)

/-! ## Chunks -/

structure Chunk where
  start : Nat
  before : Draft
  after : Draft
  next : Nat
  result : Except Fault Progress

def Chunk.written (chunk : Chunk) : Bytes :=
  chunk.after.attributes.drop chunk.before.attributes.length

section

variable [ForeignStorage σ]

def chunk (table : Table σ) (storage : Storage σ) (start : Nat) (draft : Draft) : Chunk :=
  let (after, next, result) := table.list storage start draft
  { start, before := draft, after, next, result }

/-- Lists a storage into one draft after the other, each time from where the chunk before ended. -/
def chunks (table : Table σ) (storage : Storage σ) : (start : Nat) → List Draft → List Chunk
  | _, [] => []
  | start, draft :: rest =>
      table.chunk storage start draft ::
        table.chunks storage (table.chunk storage start draft).next rest

end

/-- A chunk adds some of the elements from its start on to the draft, each as a whole and only
once, and ends behind the last one and in front of those that are left. -/
structure Chunk.Lists (chunk : Chunk) (table : Table σ) (storage : Storage σ)
    (elements left : List (Nat × List Datum)) : Prop where
  parts : table.elementsFrom storage chunk.start = elements ++ left
  whole : chunk.after = chunk.before.adding (blocks elements)
  written : chunk.written = Tree.encodeAll (blocks elements)
  read : ∀ tag, Page.entries? { tag, payload := chunk.written } = some (elements.map (·.2))
  next : chunk.next = placeBehind chunk.start elements
  rest : table.elementsFrom storage chunk.next = left
  answer : chunk.result = .ok (if left.isEmpty then .done else .more)
  within : Tree.sizeAll (blocks elements) ≤ chunk.before.room
  full : ∀ element ∈ left.head?, chunk.after.room < (Argument.dataBlock element.2).size
  stepwise : writeSteps chunk.before chunk.start (table.steps storage chunk.start) =
    (chunk.after, chunk.next, if left.isEmpty then .done else .more)

/-- A chunk that ends the listing leaves nothing. -/
theorem Chunk.Lists.nothing_left {chunk : Chunk} {elements left : List (Nat × List Datum)}
    (lists : chunk.Lists table storage elements left) (done : chunk.result = .ok .done) :
    table.elementsFrom storage chunk.next = [] := by
  rw [lists.answer] at done
  rw [lists.rest]
  cases left with
  | nil => rfl
  | cons element later => simp at done

/-! ## One chunk -/

/-- Hashes in use are listed by increasing sequence number, and any list by position. -/
theorem ranked_of_valid (builtin : ∀ inner, storage ≠ .foreign inner)
    (present : ∀ member ∈ storage.members, (table.name? member).isSome)
    (valid : ∀ hash, storage = .hash hash → hash.Valid) : table.Ranked storage where
  builtin
  present
  ordered := by
    cases storage with
    | hash hash => exact (listable_hash (valid hash rfl)).ordered
    | list list => exact members_ordered list.members 0
    | foreign inner => exact absurd rfl (builtin inner)

variable [ForeignStorage σ] {draft : Draft}

theorem chunk_lists (ranked : table.Ranked storage) (start : Nat) (draft : Draft) :
    ∃ elements left, (table.chunk storage start draft).Lists table storage elements left := by
  obtain ⟨elements, left, split, ran⟩ := list_split ranked start draft
  have made : table.chunk storage start draft = {
      start, before := draft, after := draft.adding (blocks elements)
      next := placeBehind start elements
      result := .ok (if left.isEmpty then .done else .more) } := by
    rw [chunk, ran]
  have bytes : (table.chunk storage start draft).written = Tree.encodeAll (blocks elements) := by
    rw [made, Chunk.written, Draft.attributes_adding, List.drop_left]
  have readable : ∀ element ∈ elements, ∃ datum, element.2 = [datum] ∧
      Datum.Kind.ofNumber? .element datum.kind.number = some datum.kind := fun element among =>
    exists_datum (List.mem_of_mem_filter (split.parts ▸ List.mem_append_left left among))
  refine ⟨elements, left, ?_, ?_, bytes, fun tag => ?_, ?_, ?_, ?_, ?_, fun element next => ?_, ?_⟩
  · rw [made]
    exact split.parts
  · rw [made]
  · rw [bytes]
    exact Page.entries_blocks readable
  · rw [made]
  · rw [made]
    exact elementsFrom_placeBehind ranked split.parts
  · rw [made]
  · rw [made]
    exact split.fits
  · have full := split.full element next
    have fits := split.fits
    simp only [made, Draft.room_adding]
    omega
  · have stepwise := table.list_eq_writeSteps ranked.builtin start draft
    rw [ran] at stepwise
    simp only [made]
    generalize writeSteps draft start (table.steps storage start) = outcome at stepwise ⊢
    simp only [Prod.mk.injEq, Except.ok.injEq] at stepwise
    obtain ⟨after, next, progress⟩ := stepwise
    rw [after, next, progress]

/-- With room for all elements from a place on, a single chunk has them all. -/
theorem chunk_of_room (ranked : table.Ranked storage)
    (room : Tree.sizeAll (blocks (table.elementsFrom storage start)) ≤ draft.room) :
    (table.chunk storage start draft).result = .ok .done ∧
      (table.chunk storage start draft).written =
        Tree.encodeAll (blocks (table.elementsFrom storage start)) := by
  obtain ⟨elements, left, lists⟩ := chunk_lists ranked start draft
  have parts : table.elementsFrom storage start = elements ++ left := lists.parts
  cases left with
  | nil =>
      rw [List.append_nil] at parts
      exact ⟨lists.answer, by rw [parts, lists.written]⟩
  | cons element later =>
      have full := lists.full element rfl
      have total : Tree.sizeAll (blocks (table.elementsFrom storage start)) =
          Tree.sizeAll (blocks elements) + ((Argument.dataBlock element.2).size +
            Tree.sizeAll (blocks later)) := by
        rw [parts, blocks, List.map_append, Tree.sizeAll_append]
        rfl
      have remaining : (table.chunk storage start draft).after.room =
          draft.room - Tree.sizeAll (blocks elements) := by
        rw [lists.whole, Draft.room_adding]
        rfl
      omega

/-! ## Chunks one after the other -/

/-- All chunks up to some point have together what is listed in front of the place where the last
one ends. -/
theorem chunks_written (ranked : table.Ranked storage) {drafts : List Draft}
    {earlier later : List Chunk} {last : Chunk}
    (cut : table.chunks storage start drafts = earlier ++ last :: later) :
    ∃ elements,
      table.elementsFrom storage start = elements ++ table.elementsFrom storage last.next ∧
      (earlier ++ [last]).flatMap Chunk.written = Tree.encodeAll (blocks elements) := by
  induction drafts generalizing start earlier with
  | nil => simp [chunks] at cut
  | cons draft rest ih =>
      obtain ⟨elements, left, lists⟩ := chunk_lists ranked start draft
      have parts : table.elementsFrom storage start = elements ++
          table.elementsFrom storage (table.chunk storage start draft).next := by
        rw [lists.rest]
        exact lists.parts
      rw [chunks] at cut
      cases earlier with
      | nil =>
          obtain ⟨rfl, -⟩ := List.cons.inj cut
          exact ⟨elements, parts, by simpa using lists.written⟩
      | cons first others =>
          obtain ⟨rfl, behind⟩ := List.cons.inj cut
          obtain ⟨following, rest, written⟩ := ih behind
          refine ⟨elements ++ following, ?_, ?_⟩
          · rw [parts, rest, List.append_assoc]
          · rw [List.cons_append, List.flatMap_cons, written, lists.written, blocks, blocks,
              blocks, List.map_append, Tree.encodeAll_append]

theorem chunks_lists (ranked : table.Ranked storage) (start : Nat) (drafts : List Draft) :
    ∀ chunk ∈ table.chunks storage start drafts,
      ∃ elements left, chunk.Lists table storage elements left := by
  induction drafts generalizing start with
  | nil => simp [chunks]
  | cons draft rest ih =>
      exact List.forall_mem_cons.mpr ⟨chunk_lists ranked start draft, ih _⟩

end Table

end NamedSets
