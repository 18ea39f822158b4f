import Mathlib.Data.List.Basic
import NamedSets.Proofs.Message.Drafts
import NamedSets.Table.Elements

namespace NamedSets.Table

open Attr (Tree)
open Message (Argument Draft)

variable {σ : Type} {table : Table σ} {storage : Storage σ} {start : Nat}

def memberElement (table : Table σ) (placed : Nat × Nat) : Option (Nat × List Datum) :=
  (table.name? placed.1).map fun name => (placed.2, [.name name])

/-- The elements of a storage in the order in which they are listed, each with its place. What
is in a foreign storage is not known. -/
def elements (table : Table σ) : Storage σ → List (Nat × List Datum)
  | .hash hash => hash.elements.map fun element => (element.1, [.ip element.2])
  | .list list => list.members.zipIdx.filterMap table.memberElement
  | .foreign _ => []

/-- Everything that the storage lists is there, only once and in a place of its own, and there
is not too much of it for a count of 32 bits. -/
structure Listable (table : Table σ) (storage : Storage σ) : Prop where
  builtin : ∀ inner, storage ≠ .foreign inner
  present : ∀ member ∈ storage.members, (table.name? member).isSome
  ordered : (table.elements storage).Pairwise fun first second => first.1 < second.1
  distinct : ((table.elements storage).map (·.2)).Nodup
  few : (table.elements storage).length < UInt32.size

def elementsFrom (table : Table σ) (storage : Storage σ) (start : Nat) :
    List (Nat × List Datum) :=
  (table.elements storage).filter (start ≤ ·.1)

theorem elements_congr {after : Table σ} (same : ∀ slot, after.name? slot = table.name? slot)
    (storage : Storage σ) : after.elements storage = table.elements storage := by
  have members : after.memberElement = table.memberElement := by
    funext placed
    rw [memberElement, memberElement, same]
  cases storage with
  | hash hash => rfl
  | list list => rw [elements, elements, members]
  | foreign inner => rfl

theorem Listable.congr {after : Table σ} (listable : table.Listable storage)
    (same : ∀ slot, after.name? slot = table.name? slot) : after.Listable storage where
  builtin := listable.builtin
  present member among := by
    rw [same]
    exact listable.present member among
  ordered := by
    rw [elements_congr same]
    exact listable.ordered
  distinct := by
    rw [elements_congr same]
    exact listable.distinct
  few := by
    rw [elements_congr same]
    exact listable.few

theorem elementsFrom_zero (table : Table σ) (storage : Storage σ) :
    table.elementsFrom storage 0 = table.elements storage := by
  simp [elementsFrom]

def listed (element : Nat × List Datum) : Option Tree × Nat :=
  (some (Argument.dataBlock element.2), element.1 + 1)

def blocks (elements : List (Nat × List Datum)) : List Tree :=
  elements.map fun element => Argument.dataBlock element.2

/-- An element is one datum that the reader of an element knows. -/
theorem exists_datum {element : Nat × List Datum} (present : element ∈ table.elements storage) :
    ∃ datum, element.2 = [datum] ∧
      Datum.Kind.ofNumber? .element datum.kind.number = some datum.kind := by
  cases storage with
  | hash hash =>
      obtain ⟨stored, -, rfl⟩ := List.mem_map.mp present
      exact ⟨.ip stored.2, rfl, rfl⟩
  | list list =>
      obtain ⟨placed, -, made⟩ := List.mem_filterMap.mp present
      obtain ⟨name, -, rfl⟩ := Option.map_eq_some_iff.mp made
      exact ⟨.name name, rfl, rfl⟩
  | foreign inner => contradiction

/-! ## What the storages list -/

theorem listing_hash (table : Table σ) (hash : AddressHash) (start : Nat) :
    hash.listing start = (table.elementsFrom (.hash hash) start).map listed := by
  simp only [AddressHash.listing, elementsFrom, elements, List.filter_map, List.map_map]
  rfl

private theorem map_members (table : Table σ) {members : List Nat} (offset start : Nat)
    (present : ∀ member ∈ members, (table.name? member).isSome) :
    ((members.drop (start - offset)).zipIdx (max start offset + 1)).map (fun placed =>
      ((table.name? placed.1).map fun name => Argument.dataBlock [.name name], placed.2)) =
    (((members.zipIdx offset).filterMap table.memberElement).filter (start ≤ ·.1)).map listed := by
  induction members generalizing offset with
  | nil => simp
  | cons member rest ih =>
      obtain ⟨name, named⟩ := Option.isSome_iff_exists.mp (present member List.mem_cons_self)
      have first : table.memberElement (member, offset) = some (offset, [.name name]) := by
        simp only [memberElement, named, Option.map_some]
      have later := ih (offset + 1) fun other among => present other (List.mem_cons_of_mem _ among)
      rw [List.zipIdx_cons, List.filterMap_cons_some first]
      -- A member in front of the start is dropped on the one side and filtered out on the other.
      by_cases passed : offset < start
      · have skip : start - offset = start - (offset + 1) + 1 := by omega
        have same : max start offset = max start (offset + 1) := by omega
        rw [skip, List.drop_succ_cons, same, later, List.filter_cons_of_neg (by simpa using passed)]
      · have stay : start - offset = 0 := by omega
        have next : start - (offset + 1) = 0 := by omega
        have here : max start offset = offset := by omega
        have beyond : max start (offset + 1) = offset + 1 := by omega
        rw [next, List.drop_zero, beyond] at later
        rw [stay, List.drop_zero, here, List.zipIdx_cons, List.map_cons, later,
          List.filter_cons_of_pos (by simpa using passed)]
        simp only [named, Option.map_some, List.map_cons, listed]

theorem listing_list {list : SetList} (present : ∀ member ∈ list.members,
    (table.name? member).isSome) (start : Nat) :
    list.listing table start = (table.elementsFrom (.list list) start).map listed := by
  have whole := map_members table 0 start present
  rwa [Nat.sub_zero, Nat.max_eq_left (Nat.zero_le start)] at whole

/-! ## Writing elements -/

structure Split (room : Nat) (elements written left : List (Nat × List Datum)) : Prop where
  parts : elements = written ++ left
  fits : Tree.sizeAll (blocks written) ≤ room
  full : ∀ element ∈ left.head?,
    room < Tree.sizeAll (blocks written) + (Argument.dataBlock element.2).size

def placeBehind (start : Nat) (elements : List (Nat × List Datum)) : Nat :=
  (elements.getLast?.map (·.1 + 1)).getD start

@[simp] theorem placeBehind_concat (start : Nat) (elements : List (Nat × List Datum))
    (last : Nat × List Datum) : placeBehind start (elements ++ [last]) = last.1 + 1 := by
  simp [placeBehind]

theorem placeBehind_cons (start : Nat) (first : Nat × List Datum)
    (rest : List (Nat × List Datum)) :
    placeBehind start (first :: rest) = placeBehind (first.1 + 1) rest := by
  rcases List.eq_nil_or_concat' rest with rfl | ⟨others, last, rfl⟩
  · rfl
  · rw [← List.cons_append, placeBehind_concat, placeBehind_concat]

/-- In order, the place behind some elements divides them from those that follow. -/
theorem placeBehind_divides {start : Nat} {written left : List (Nat × List Datum)}
    (ordered : (written ++ left).Pairwise fun first second => first.1 < second.1)
    (behind : ∀ element ∈ written ++ left, start ≤ element.1) :
    start ≤ placeBehind start written ∧
      (∀ element ∈ written, element.1 < placeBehind start written) ∧
      ∀ element ∈ left, placeBehind start written ≤ element.1 := by
  rcases List.eq_nil_or_concat' written with rfl | ⟨others, last, rfl⟩
  · exact ⟨Nat.le_refl _, by simp, behind⟩
  · obtain ⟨inside, -, across⟩ := List.pairwise_append.mp ordered
    have front := (List.pairwise_append.mp inside).2.2
    have here : start ≤ last.1 := behind last (by simp)
    rw [placeBehind_concat]
    refine ⟨Nat.le_succ_of_le here, fun element present => ?_, fun element later => ?_⟩
    · rcases List.mem_append.mp present with earlier | itself
      · exact Nat.lt_succ_of_lt (front element earlier last List.mem_cons_self)
      · exact List.mem_singleton.mp itself ▸ Nat.lt_succ_self last.1
    · exact across last (by simp) element later

/-- Elements are written in order up to the first that does not fit. -/
theorem write_split (draft : Draft) (start : Nat) (elements : List (Nat × List Datum)) :
    ∃ written left, Split draft.room elements written left ∧
      write draft start (elements.map listed) =
        (draft.adding (blocks written), placeBehind start written,
          if left.isEmpty then .done else .more) := by
  induction elements generalizing draft start with
  | nil =>
      exact ⟨[], [], ⟨rfl, Nat.zero_le _, by simp⟩, by simp [write, blocks, placeBehind]⟩
  | cons element rest ih =>
      by_cases fits : (Argument.dataBlock element.2).size ≤ draft.room
      · obtain ⟨written, left, split, ran⟩ :=
          ih (draft.adding [Argument.dataBlock element.2]) (element.1 + 1)
        have size : Tree.sizeAll (blocks (element :: written)) =
            (Argument.dataBlock element.2).size + Tree.sizeAll (blocks written) := rfl
        have remaining : (draft.adding [Argument.dataBlock element.2]).room =
            draft.room - (Argument.dataBlock element.2).size := by
          simp [Tree.sizeAll]
        refine ⟨element :: written, left, ⟨?_, ?_, fun next present => ?_⟩, ?_⟩
        · rw [split.parts, List.cons_append]
        · have enough := split.fits
          omega
        · have tight := split.full next present
          omega
        · rw [placeBehind_cons, List.map_cons]
          simp only [listed, write, Draft.put_of_fits fits]
          rw [ran, Draft.adding_adding]
          rfl
      · refine ⟨[], element :: rest, ⟨rfl, Nat.zero_le _, fun next present => ?_⟩, ?_⟩
        · obtain rfl : element = next := by simpa using present
          have nothing : Tree.sizeAll (blocks []) = 0 := rfl
          omega
        · simp [blocks, placeBehind, listed, write, Draft.put, if_neg fits]

/-- How far a listing comes with some room: everything in front of a place is written, and
unless nothing is left, the next element does not fit. -/
structure Reaches (elements : List (Nat × List Datum)) (room start next : Nat)
    (progress : Progress) : Prop where
  forward : start ≤ next
  fits : Tree.sizeAll (blocks (elements.filter (·.1 < next))) ≤ room
  done : progress = .done → ∀ element ∈ elements, element.1 < next
  more : progress = .more → ∃ element ∈ elements, next ≤ element.1 ∧
    room < Tree.sizeAll (blocks (elements.filter (·.1 < next))) +
      (Argument.dataBlock element.2).size

theorem Split.reaches {elements written left : List (Nat × List Datum)} {room : Nat}
    (split : Split room elements written left)
    (ordered : elements.Pairwise fun first second => first.1 < second.1)
    (behind : ∀ element ∈ elements, start ≤ element.1) :
    Reaches elements room start (placeBehind start written)
        (if left.isEmpty then .done else .more) ∧
      elements.filter (·.1 < placeBehind start written) = written := by
  rw [split.parts] at ordered behind
  obtain ⟨forward, before, beyond⟩ := placeBehind_divides ordered behind
  have front : elements.filter (·.1 < placeBehind start written) = written := by
    rw [split.parts, List.filter_append, List.filter_eq_self.mpr (by simpa using before),
      List.filter_eq_nil_iff.mpr (by simpa using beyond), List.append_nil]
  refine ⟨⟨forward, ?_, fun ended => ?_, fun cut => ?_⟩, front⟩
  · rw [front]
    exact split.fits
  · cases left with
    | nil => rwa [split.parts, List.append_nil]
    | cons element later => simp at ended
  · cases left with
    | nil => simp at cut
    | cons element later =>
        rw [front]
        refine ⟨element, ?_, beyond element List.mem_cons_self, split.full element rfl⟩
        simp [split.parts]

/-! ## Listing a storage -/

structure Ranked (table : Table σ) (storage : Storage σ) : Prop where
  builtin : ∀ inner, storage ≠ .foreign inner
  present : ∀ member ∈ storage.members, (table.name? member).isSome
  ordered : (table.elements storage).Pairwise fun first second => first.1 < second.1

theorem Listable.ranked (listable : table.Listable storage) : table.Ranked storage :=
  ⟨listable.builtin, listable.present, listable.ordered⟩

theorem Ranked.ordered_from (ranked : table.Ranked storage) (start : Nat) :
    (table.elementsFrom storage start).Pairwise fun first second => first.1 < second.1 :=
  ranked.ordered.filter _

theorem le_of_mem_elementsFrom {element : Nat × List Datum}
    (present : element ∈ table.elementsFrom storage start) : start ≤ element.1 :=
  of_decide_eq_true (List.mem_filter.mp present).2

theorem list_split [ForeignStorage σ] (ranked : table.Ranked storage) (start : Nat)
    (draft : Draft) :
    ∃ written left, Split draft.room (table.elementsFrom storage start) written left ∧
      table.list storage start draft = (draft.adding (blocks written), placeBehind start written,
        .ok (if left.isEmpty then .done else .more)) := by
  obtain ⟨written, left, split, ran⟩ := write_split draft start (table.elementsFrom storage start)
  refine ⟨written, left, split, ?_⟩
  cases storage with
  | hash hash => simp only [list, table.listing_hash, ran]
  | list inner => simp only [list, listing_list ranked.present, ran]
  | foreign inner => exact absurd rfl (ranked.builtin inner)

/-- The place behind what was written is where the elements that are left start. -/
theorem elementsFrom_placeBehind (ranked : table.Ranked storage)
    {written left : List (Nat × List Datum)}
    (parts : table.elementsFrom storage start = written ++ left) :
    table.elementsFrom storage (placeBehind start written) = left := by
  have ordered : (written ++ left).Pairwise fun first second => first.1 < second.1 :=
    parts ▸ ranked.ordered_from start
  have behind : ∀ element ∈ written ++ left, start ≤ element.1 := fun element present =>
    le_of_mem_elementsFrom (parts ▸ present)
  obtain ⟨forward, before, beyond⟩ := placeBehind_divides ordered behind
  have later : table.elementsFrom storage (placeBehind start written) =
      (table.elementsFrom storage start).filter (placeBehind start written ≤ ·.1) := by
    rw [elementsFrom, elementsFrom, List.filter_filter]
    refine List.filter_congr fun element _ => ?_
    rw [← Bool.decide_and, decide_eq_decide]
    omega
  rw [later, parts, List.filter_append, List.filter_eq_nil_iff.mpr (by simpa using before),
    List.filter_eq_self.mpr (by simpa using beyond), List.nil_append]

theorem list_listable [ForeignStorage σ] (listable : table.Listable storage) (start : Nat)
    (draft : Draft) :
    ∃ next progress, Reaches (table.elementsFrom storage start) draft.room start next progress ∧
      table.list storage start draft =
        (draft.adding (blocks ((table.elementsFrom storage start).filter (·.1 < next))), next,
          .ok progress) := by
  obtain ⟨written, left, split, ran⟩ := list_split listable.ranked start draft
  obtain ⟨reaches, front⟩ := split.reaches (listable.ranked.ordered_from start)
    fun _ => le_of_mem_elementsFrom
  exact ⟨_, _, reaches, by rw [front, ran]⟩

end NamedSets.Table
