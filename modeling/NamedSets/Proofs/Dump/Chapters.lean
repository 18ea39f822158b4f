import Mathlib.Algebra.Order.BigOperators.Group.List
import Mathlib.Algebra.Order.Group.Nat
import NamedSets.Proofs.Dump.Steps
import NamedSets.Proofs.Table.Transfers

/-!
# Chapters

The messages about a set are a chapter of a dump. If nothing happens between the steps of a
dump, every set that it visits gets a chapter, which tells all of the set, and when the dump has
ended the table is as it was.
-/

namespace NamedSets

variable {σ : Type} {table : Table σ} {entry : Entry σ} {slot : Nat}

theorem Entry.others_hold (room : entry.references.toNat + 1 < UInt32.size) :
    entry.hold.others = entry.references := by
  rw [others, if_neg (Table.references_hold room)]
  simp [hold]

namespace Table

theorem AllListable.hold (all : table.AllListable) (slot : Nat) :
    (table.hold slot).AllListable := by
  intro id entry found
  have names := (SameLabels.hold table slot).name
  rw [Table.hold, get_modify] at found
  split at found
  · obtain ⟨before, there, rfl⟩ := Option.map_eq_some_iff.mp found
    obtain ⟨builtin, listable⟩ := all id before there
    exact ⟨builtin, listable.congr names⟩
  · obtain ⟨builtin, listable⟩ := all id entry found
    exact ⟨builtin, listable.congr names⟩

end Table

/-! ## What a chapter tells -/

def Carries (limit : Nat) (bytes : Bytes) (page : Page) : Prop :=
  bytes.length ≤ limit ∧ Page.read? bytes = some page

/-- The pages about a set name it, and the first of them, and only this one, describes it with
the references to it. Together they list its elements in their order, each once. -/
structure Chapter (sequence sender : UInt32) (table : Table σ) (entry : Entry σ)
    (pages : List Page) : Prop where
  marked : ∀ page ∈ pages,
    page.sequence = sequence ∧ page.sender = sender ∧ page.name = entry.name
  described : ∃ first rest description, pages = first :: rest ∧
    first.description = some description ∧ description.Describes entry entry.references ∧
    ∀ page ∈ rest, page.description = none
  elements : pages.flatMap (·.elements) = (table.elements entry.storage).map (·.2)
  once : (pages.flatMap (·.elements)).Nodup

private theorem filter_lt_append_filter_le {elements : List (Nat × List Datum)}
    (ordered : elements.Pairwise fun first second => first.1 < second.1) (next : Nat) :
    elements.filter (·.1 < next) ++ elements.filter (next ≤ ·.1) = elements := by
  induction elements with
  | nil => rfl
  | cons element rest ih =>
      obtain ⟨above, ordered⟩ := List.pairwise_cons.mp ordered
      by_cases front : element.1 < next
      · rw [List.filter_cons_of_pos (by simpa using front),
          List.filter_cons_of_neg (by simpa using front), List.cons_append, ih ordered]
      · have behind : ∀ other ∈ element :: rest, next ≤ other.1 := by
          intro other present
          rcases List.mem_cons.mp present with rfl | later
          · exact Nat.not_lt.mp front
          · exact Nat.le_trans (Nat.not_lt.mp front) (Nat.le_of_lt (above other later))
        have none : (element :: rest).filter (·.1 < next) = [] :=
          List.filter_eq_nil_iff.mpr fun other present => by simpa using behind other present
        have whole : (element :: rest).filter (next ≤ ·.1) = element :: rest :=
          List.filter_eq_self.mpr fun other present => by simpa using behind other present
        rw [none, whole, List.nil_append]

namespace Dump

variable {dump found : Dump} {limit : Nat}

/-! ## Steps in a row -/

/-- A dump sends messages, one with each step, while nothing else happens to the table. -/
inductive Sending [ForeignStorage σ] (limit : Nat) :
    Table σ → Dump → List Bytes → Table σ → Dump → Prop
  | nil (table : Table σ) (dump : Dump) : Sending limit table dump [] table dump
  | cons {table next after : Table σ} {dump later final : Dump} {bytes : Bytes}
      {messages : List Bytes} (first : dump.step table limit = (next, later, .ok (some bytes)))
      (rest : Sending limit next later messages after final) :
      Sending limit table dump (bytes :: messages) after final

theorem Sending.append [ForeignStorage σ] {middle after : Table σ} {between final : Dump}
    {messages others : List Bytes} (first : Sending limit table dump messages middle between)
    (later : Sending limit middle between others after final) :
    Sending limit table dump (messages ++ others) after final := by
  induction first with
  | nil => exact later
  | cons step _ ih => exact .cons step (ih later)

/-! ## A chapter in a row -/

theorem listedUpTo_append (listable : table.Listable entry.storage) {next : Nat}
    (forward : dump.place ≤ next) :
    dump.listedUpTo table entry next ++ table.elementsFrom entry.storage next =
      table.elementsFrom entry.storage dump.place := by
  have behind : table.elementsFrom entry.storage next =
      (table.elementsFrom entry.storage dump.place).filter (next ≤ ·.1) := by
    rw [Table.elementsFrom, Table.elementsFrom, List.filter_filter]
    refine List.filter_congr fun element _ => ?_
    by_cases further : next ≤ element.1
    · simp [further, Nat.le_trans forward further]
    · simp [further]
  rw [behind]
  exact filter_lt_append_filter_le (listable.ordered.filter _) next

theorem listedUpTo_eq {next : Nat}
    (all : ∀ element ∈ table.elementsFrom entry.storage dump.place, element.1 < next) :
    dump.listedUpTo table entry next = table.elementsFrom entry.storage dump.place :=
  List.filter_eq_self.mpr fun element present => decide_eq_true (all element present)

section Chapters

variable [ForeignStorage σ]

/-- The messages that follow the first one about a set list the rest of its elements. The
induction is on how many places are left. -/
theorem sending_rest (dump : Dump) (all : table.AllListable) (large : 512 ≤ limit)
    (small : limit ≤ 65535) (there : table.get? dump.slot = some entry)
    (visits : dump.mode.Visits entry.type.features.listedLast) (going : dump.finished = false)
    (started : dump.cursor.isSome) (left : Nat)
    (bound : ∀ element ∈ table.elements entry.storage, element.1 < dump.place + left) :
    ∃ messages pages,
      Sending limit table dump messages (table.release dump.slot) (dump.leave table) ∧
      List.Forall₂ (Carries limit) messages pages ∧
      (∀ page ∈ pages, page.sequence = dump.sequence ∧ page.sender = dump.sender ∧
        page.name = entry.name ∧ page.description = none) ∧
      pages.flatMap (·.elements) =
        (table.elementsFrom entry.storage dump.place).map (·.2) := by
  induction left using Nat.strongRecOn generalizing dump with
  | _ left ih =>
      have placed : dump.Placed table := fun _ => ⟨entry, there, visits⟩
      obtain ⟨other, here, sought⟩ := placed.seek started
      cases there.symm.trans here
      have step : dump.step table limit = dump.advance table entry limit :=
        step_of_seek going sought
      obtain ⟨bytes, page, next, short, read, tells, goes⟩ :=
        dump.advance_sends all there large small
      have kept : dump.holding table = table := holding_started started
      have same : dump.shown entry = entry := shown_started started
      have bare : page.description = none := by
        simpa [Option.isNone_eq_false_iff.mpr started] using tells.first
      have marked : page.sequence = dump.sequence ∧ page.sender = dump.sender ∧
          page.name = entry.name ∧ page.description = none :=
        ⟨tells.sequence, tells.sender, same ▸ tells.name, bare⟩
      rw [kept] at goes
      -- The cursor moves forward, so that fewer places are left for the messages to come.
      obtain ⟨forward, ⟨element, present, beyond⟩, sent⟩ | ⟨whole, sent⟩ := goes
      · have inside := bound element (List.mem_of_mem_filter present)
        obtain ⟨messages, pages, sending, carried, others, listed⟩ :=
          ih (dump.place + left - next) (by omega) { dump with cursor := some next }
            there visits going rfl (by
              intro element present
              have below := bound element present
              change element.1 < next + (dump.place + left - next)
              omega)
        refine ⟨bytes :: messages, page :: pages, .cons (step.trans sent) sending,
          .cons ⟨short, read⟩ carried, List.forall_mem_cons.mpr ⟨marked, others⟩, ?_⟩
        rw [List.flatMap_cons, listed, tells.elements, ← List.map_append]
        exact congrArg _ (listedUpTo_append (all dump.slot entry there).2 (Nat.le_of_lt forward))
      · refine ⟨[bytes], [page], .cons (step.trans sent) (.nil _ _), .cons ⟨short, read⟩ .nil,
          List.forall_mem_singleton.mpr marked, ?_⟩
        rw [List.flatMap_singleton, tells.elements, listedUpTo_eq whole]

/-- A dump that comes to a set tells all of it, and is back in the table as it was. -/
theorem sending_chapter (all : table.AllListable) (large : 512 ≤ limit) (small : limit ≤ 65535)
    (going : dump.finished = false) (idle : dump.cursor = none)
    (sought : dump.seek table = .ok (found, some entry))
    (room : entry.references.toNat + 1 < UInt32.size) :
    ∃ messages pages, Sending limit table dump messages table (found.leave table) ∧
      List.Forall₂ (Carries limit) messages pages ∧
      Chapter dump.sequence dump.sender table entry pages := by
  obtain ⟨sameCursor, there, visits⟩ := seek_ok sought
  have sameDump := seek_eq sought
  have idle : found.cursor = none := sameCursor.trans idle
  have step : dump.step table limit = found.advance table entry limit :=
    step_of_seek going sought
  obtain ⟨bytes, page, next, short, read, tells, goes⟩ :=
    found.advance_sends all there large small
  obtain ⟨-, listable⟩ := all found.slot entry there
  have held : found.holding table = table.hold found.slot := holding_idle idle
  have shown : found.shown entry = entry.hold := shown_idle idle
  have start : found.place = 0 := by simp [place, idle]
  rw [shown] at tells
  obtain ⟨description, described⟩ : ∃ description, page.description = some description :=
    Option.isSome_iff_exists.mp (by simpa [idle] using tells.first)
  have told : description.Describes entry entry.references := by
    have about := tells.described description described
    exact ⟨about.typeName, about.family, about.revision, entry.others_hold room ▸ about.references,
      about.elements⟩
  have marked : page.sequence = dump.sequence ∧ page.sender = dump.sender ∧
      page.name = entry.name := by
    refine ⟨tells.sequence.trans ?_, tells.sender.trans ?_, tells.name⟩ <;> rw [sameDump]
  -- What remains is that the first page and those behind it list all elements.
  have chapter {rest : List Page} (others : ∀ page ∈ rest, page.sequence = dump.sequence ∧
      page.sender = dump.sender ∧ page.name = entry.name ∧ page.description = none)
      (listed : page.elements ++ rest.flatMap (·.elements) =
        (table.elements entry.storage).map (·.2)) :
      Chapter dump.sequence dump.sender table entry (page :: rest) := by
    refine ⟨?_, ⟨page, rest, description, rfl, described, told, fun other present =>
      (others other present).2.2.2⟩, listed, ?_⟩
    · refine List.forall_mem_cons.mpr ⟨marked, fun other present => ?_⟩
      obtain ⟨sequence, sender, name, -⟩ := others other present
      exact ⟨sequence, sender, name⟩
    · rw [List.flatMap_cons, listed]
      exact listable.distinct
  rw [held] at goes
  obtain ⟨forward, -, sent⟩ | ⟨whole, sent⟩ := goes
  · have thereHeld := Table.get_hold there
    have goingFound : found.finished = false := by rw [sameDump, going]
    obtain ⟨messages, pages, sending, carried, others, listed⟩ :=
      sending_rest { found with cursor := some next } (all.hold found.slot) large small
        thereHeld (visits entry rfl) goingFound rfl _ fun element present =>
          Nat.lt_add_left _ (Nat.lt_succ_of_le
            (List.single_le_sum (fun _ _ => Nat.zero_le _) _ (List.mem_map_of_mem present)))
    have left : Dump.leave { found with cursor := some next } (table.hold found.slot) =
        found.leave table := by
      simp [leave]
    have elements := Table.elements_congr (Table.SameLabels.hold table found.slot).name
      entry.hold.storage
    rw [Table.release_hold there room, left] at sending
    refine ⟨bytes :: messages, page :: pages, .cons (step.trans sent) sending,
      .cons ⟨short, read⟩ carried, chapter ?_ ?_⟩
    · intro other present
      obtain ⟨sequence, sender, name, bare⟩ := others other present
      refine ⟨sequence.trans ?_, sender.trans ?_, name, bare⟩ <;> rw [sameDump]
    · rw [listed, tells.elements, Table.elementsFrom, elements, ← List.map_append]
      have whole := listedUpTo_append listable (Nat.le_of_lt forward)
      rw [start, Table.elementsFrom_zero] at whole
      exact congrArg _ whole
  · rw [Table.release_hold there room] at sent
    refine ⟨[bytes], [page], .cons (step.trans sent) (.nil _ _), .cons ⟨short, read⟩ .nil,
      chapter (by simp) ?_⟩
    rw [List.flatMap_nil, List.append_nil, tells.elements, listedUpTo_eq whole, start,
      Table.elementsFrom_zero]

/-- Undisturbed, a dump tells every set to come in a chapter of its own, and then it ends. The
induction is on the sets to come. -/
theorem sending_chapters (all : table.AllListable) (room : table.Room) (large : 512 ≤ limit)
    (small : limit ≤ 65535) (going : dump.finished = false) (idle : dump.cursor = none)
    (present : dump.mode = .one → dump.slot < table.capacity →
      ∃ entry, table.get? dump.slot = some entry) :
    ∃ messages chapters ended,
      Sending limit table dump
        (messages ++ [Message.Done.encode dump.sequence dump.sender 0]) table ended ∧
      ended.finished = true ∧
      List.Forall₂ (Carries limit) messages chapters.flatten ∧
      List.Forall₂ (fun slot pages => ∃ entry, table.get? slot = some entry ∧
        Chapter dump.sequence dump.sender table entry pages) (dump.upcoming table) chapters := by
  generalize same : dump.upcoming table = slots
  induction slots generalizing dump with
  | nil =>
      obtain ⟨found, reached, sought⟩ := seek_exists present
      cases reached with
      | some entry => simp [upcoming_of_seek idle sought] at same
      | none =>
          exact ⟨[], [], _, .cons (step_of_end going sought) (.nil _ _), rfl, .nil, .nil⟩
  | cons slot rest ih =>
      obtain ⟨found, reached, sought⟩ := seek_exists present
      cases reached with
      | none => simp [upcoming_of_end idle sought] at same
      | some entry =>
          obtain ⟨-, there, -⟩ := seek_ok sought
          rw [upcoming_of_seek idle sought, List.cons.injEq] at same
          obtain ⟨rfl, others⟩ := same
          have sameDump := seek_eq sought
          obtain ⟨messages, pages, sending, carried, chapter⟩ :=
            sending_chapter all large small going idle sought (room found.slot entry there)
          have goingOn : (found.leave table).finished = false := by
            rw [sameDump]
            exact going
          have stays (one : (found.leave table).mode = .one)
              (inside : (found.leave table).slot < table.capacity) :
              ∃ entry, table.get? (found.leave table).slot = some entry := by
            have mode : found.mode = .one := one
            simp [leave, mode] at inside
          obtain ⟨later, chapters, ended, ending, finished, carriedLater, told⟩ :=
            ih goingOn rfl stays others
          have sequence : (found.leave table).sequence = dump.sequence := by rw [sameDump]; rfl
          have sender : (found.leave table).sender = dump.sender := by rw [sameDump]; rfl
          rw [sequence, sender] at ending told
          refine ⟨messages ++ later, pages :: chapters, ended, ?_, finished,
            List.rel_append carried carriedLater, .cons ⟨entry, there, chapter⟩ told⟩
          rw [List.append_assoc]
          exact sending.append ending

end Chapters

end Dump

end NamedSets
