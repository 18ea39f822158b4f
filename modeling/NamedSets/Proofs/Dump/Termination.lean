import Mathlib.Algebra.GroupWithZero.Nat
import NamedSets.Proofs.Dump.Chapters
import NamedSets.Proofs.Dump.Outcomes
import NamedSets.Proofs.Table.Cursors

/-!
# The end of a dump

Undisturbed, every dump ends, also one that lists storages from outside, as long as their cursors
stay between where they are and some bound. Each message leaves less work: it moves the cursor on,
or it is the first or the last one about a set. When the dump has ended, with its last message
or with a fault, the reference that it took is given back.
-/

namespace NamedSets

variable {σ : Type} {table middle after : Table σ}

namespace Dump

variable {dump found later ended : Dump} {entry : Entry σ} {limit : Nat} {messages : List Bytes}

/-! ## What a dump has borrowed -/

/-- A dump has given back what it took of a table, apart from the reference to the set that it
is listing. -/
inductive Borrows (table : Table σ) : Table σ → Dump → Prop
  | nothing {middle : Table σ} {dump : Dump} (idle : dump.cursor = none)
      (repaid : table.Repaid middle) : Borrows table middle dump
  | reference {base : Table σ} {dump : Dump} (started : dump.cursor.isSome)
      (going : dump.finished = false) (placed : dump.Placed base) (repaid : table.Repaid base) :
      Borrows table (base.hold dump.slot) dump

structure Over [ForeignStorage σ] (table after : Table σ) (dump : Dump) : Prop where
  silent : ∀ limit, dump.step after limit = (after, dump, .ok none)
  idle : dump.cursor = none
  repaid : table.Repaid after

def Fails [ForeignStorage σ] (limit : Nat) (table : Table σ) (dump : Dump)
    (messages : List Bytes) (fault : Fault) (after : Table σ) (ended : Dump) : Prop :=
  ∃ middle between, Sending limit table dump messages middle between ∧
    between.step middle limit = (after, ended, .error fault)

section Steps

variable [ForeignStorage σ]

theorem step_finished (finished : dump.finished = true) :
    dump.step table limit = (table, dump, .ok none) := by
  rw [step, if_pos finished]

theorem step_of_error {fault : Fault} (going : dump.finished = false)
    (failed : dump.seek table = .error fault) :
    dump.step table limit =
      ((dump.abort table).1, { dump with cursor := none, finished := true }, .error fault) := by
  simp only [step, going, Bool.false_eq_true, if_false, failed, ← abort_eq dump table]

theorem Borrows.over (borrows : Borrows table after ended) (finished : ended.finished = true) :
    Over table after ended := by
  cases borrows with
  | nothing idle repaid => exact ⟨fun _ => step_finished finished, idle, repaid⟩
  | reference _ going => simp [finished] at going

/-- A message about a set takes a reference to it only if it is the first one, and gives it back
unless there is more to list. -/
theorem borrows_advance {base : Table σ} {listed : Entry σ}
    (held : dump.holding middle = base.hold dump.slot) (going : dump.finished = false)
    (there : base.get? dump.slot = some entry)
    (visits : dump.mode.Visits entry.type.features.listedLast) (repaid : table.Repaid base)
    (limit : Nat) :
    Borrows table (dump.advance middle listed limit).1 (dump.advance middle listed limit).2.1 := by
  obtain ⟨cursor, went, goesOn⟩ | ⟨left, given⟩ := dump.advance_cases middle listed limit
  · have goesOnAt : ({ dump with cursor := some cursor } : Dump).slot = dump.slot := rfl
    rw [went, goesOn, held, ← goesOnAt]
    exact .reference rfl going (fun _ => ⟨entry, there, visits⟩) repaid
  · rw [left, held]
    exact .nothing given (repaid.trans (.release_hold base dump.slot))

theorem Borrows.step (borrows : Borrows table middle dump) (limit : Nat) :
    Borrows table (dump.step middle limit).1 (dump.step middle limit).2.1 := by
  cases going : dump.finished with
  | true => rwa [step_finished going]
  | false =>
      cases borrows with
      | nothing idle repaid =>
          cases sought : dump.seek middle with
          | error fault =>
              rw [step_of_error going sought]
              exact .nothing rfl (by simpa only [abort, release, idle] using repaid)
          | ok outcome =>
              obtain ⟨found, reached⟩ := outcome
              obtain ⟨sameCursor, there, visits⟩ := seek_ok sought
              have idle : found.cursor = none := sameCursor.trans idle
              cases reached with
              | none =>
                  rw [step_of_end going sought]
                  exact .nothing idle repaid
              | some entry =>
                  have goesOn : found.finished = false := by rw [seek_eq sought, going]
                  rw [step_of_seek going sought]
                  exact borrows_advance (holding_idle idle) goesOn there (visits entry rfl) repaid
                    limit
      | @reference base _ started _ placed repaid =>
          -- The next message is about the set that the reference is to.
          have stays := placed.of_sameLabels (Table.SameLabels.hold base dump.slot)
          obtain ⟨listed, -, sought⟩ := stays.seek started
          obtain ⟨entry, there, visits⟩ := placed started
          rw [step_of_seek going sought]
          exact borrows_advance (holding_started started) going there visits repaid limit

theorem Borrows.sending (borrows : Borrows table middle dump)
    (sending : Sending limit middle dump messages after later) : Borrows table after later := by
  induction sending with
  | nil => exact borrows
  | cons first _ ih =>
      have next := borrows.step limit
      rw [first] at next
      exact ih next

theorem Borrows.fails {fault : Fault} (borrows : Borrows table middle dump)
    (fails : Fails limit middle dump messages fault after ended) : Borrows table after ended := by
  obtain ⟨last, between, sending, failed⟩ := fails
  have next := (borrows.sending sending).step limit
  rwa [failed] at next

/-! ## The work that is left -/

omit [ForeignStorage σ] in
theorem upcoming_congr (same : Table.SameLabels table after) (dump : Dump) :
    dump.upcoming after = dump.upcoming table := by
  have kind (table : Table σ) (listedLast : Bool) (slot : Nat) :
      (table.get? slot).any (·.type.features.listedLast = listedLast) =
        ((table.get? slot).map Entry.label).any (·.2.1.features.listedLast = listedLast) := by
    cases table.get? slot <;> rfl
  have visits (listedLast : Bool) (start : Nat) :
      visited after listedLast start = visited table listedLast start := by
    simp only [visited, same.capacity, kind, same.labels]
  simp only [upcoming, visits, same.capacity]

/-- How many messages a dump can send at most before the last one, if the elements of the set in
each slot are listed within bounds. -/
def work (dump : Dump) (table : Table σ) (bounds : Nat → Nat) : Nat :=
  ((dump.upcoming table).map (bounds · + 2)).sum +
    dump.cursor.elim 0 fun cursor => bounds dump.slot - cursor + 1

theorem message_listed {start next : Nat} {first : Bool} {bytes : Bytes} {progress : Progress}
    (written : dump.message table entry limit first start = .ok (bytes, next, progress)) :
    ∃ opened listed, table.list entry.storage start opened = (listed, next, .ok progress) := by
  obtain ⟨blank, -, written⟩ := ok_of_bind written
  obtain ⟨versioned, -, written⟩ := ok_of_bind written
  obtain ⟨named, -, written⟩ := ok_of_bind written
  cases first with
  | true =>
      obtain ⟨described, -, written⟩ := ok_of_bind written
      obtain ⟨opened, -, written⟩ := ok_of_bind written
      split at written
      · contradiction
      · rename_i same
        cases written
        exact ⟨opened, _, same⟩
  | false =>
      obtain ⟨described, kept, written⟩ := ok_of_bind written
      cases kept
      obtain ⟨opened, -, written⟩ := ok_of_bind written
      split at written
      · contradiction
      · rename_i same
        cases written
        exact ⟨opened, _, same⟩

/-- A message about a set fails, which ends the dump, or goes on with the set, at a later place
unless it is the first one, or leaves the set. -/
theorem advance_goes {bound : Nat}
    (lists : (dump.holding table).ListsWithin entry.storage bound) (inside : dump.place ≤ bound) :
    (∃ fault, (dump.advance table entry limit).2 =
      ({ dump with cursor := none, finished := true }, .error fault)) ∨
    ∃ bytes later, (dump.advance table entry limit).2 = (later, .ok (some bytes)) ∧
      (later = dump.leave table ∨ ∃ next, later = { dump with cursor := some next } ∧
        next ≤ bound ∧ (dump.cursor.isSome → dump.place < next)) := by
  rw [← dump.storage_shown entry] at lists
  cases sent : message { dump with cursor := some dump.place } (dump.holding table)
      (dump.shown entry) limit dump.cursor.isNone dump.place with
  | error fault => exact .inl ⟨fault, advance_failed sent⟩
  | ok written =>
      obtain ⟨bytes, next, progress⟩ := written
      obtain ⟨opened, listed, same⟩ := message_listed sent
      have between := lists dump.place inside opened
      rw [same] at between
      obtain ⟨forward, bounded⟩ := between
      cases progress with
      | done => exact .inr ⟨bytes, _, by rw [advance_done sent], .inl rfl⟩
      | more =>
          by_cases stuck : dump.cursor.isSome ∧ next = dump.place
          · obtain ⟨started, rfl⟩ := stuck
            exact .inl ⟨_, advance_stuck started sent⟩
          · have further : dump.cursor.isSome → next ≠ dump.place := not_and.mp stuck
            exact .inr ⟨bytes, _, by rw [advance_more further sent], .inr ⟨next, rfl, bounded,
              fun started => Nat.lt_of_le_of_ne forward (further started).symm⟩⟩

/-! ## What a step leaves of the work -/

variable {bounds : Nat → Nat}

omit [ForeignStorage σ] in
theorem work_congr (same : Table.SameLabels table after) (dump : Dump) :
    dump.work after bounds = dump.work table bounds := by
  simp only [work, upcoming_congr same]

omit [ForeignStorage σ] in
theorem work_listing (dump : Dump) (next : Nat) :
    work { dump with cursor := some next } table bounds =
      (dump.leave table).work table bounds + (bounds dump.slot - next + 1) := by
  have rest : upcoming { dump with cursor := some next } table = (dump.leave table).upcoming table :=
    upcoming_of_cursor rfl
  simp only [work, rest]
  rfl

omit [ForeignStorage σ] in
theorem work_of_seek (bounds : Nat → Nat) (borrows : Borrows table middle dump)
    (sought : dump.seek middle = .ok (found, some entry)) :
    (found.cursor = none ∧ dump.work middle bounds =
        (found.leave middle).work middle bounds + (bounds found.slot + 2)) ∨
      (found = dump ∧ found.cursor.isSome ∧ dump.work middle bounds =
        (found.leave middle).work middle bounds + (bounds found.slot - found.place + 1)) := by
  cases borrows with
  | nothing idle repaid =>
      refine .inl ⟨(seek_ok sought).1.trans idle, ?_⟩
      simp only [work, upcoming_of_seek idle sought, idle, List.map_cons, List.sum_cons,
        Option.elim_none, leave]
      omega
  | @reference base _ started _ placed repaid =>
      obtain ⟨other, -, here⟩ :=
        (placed.of_sameLabels (Table.SameLabels.hold base dump.slot)).seek started
      cases sought.symm.trans here
      obtain ⟨cursor, same⟩ := Option.isSome_iff_exists.mp started
      have listing : { dump with cursor := some dump.place } = dump := by
        rw [place, same, Option.getD_some, ← same]
      have whole : work { dump with cursor := some dump.place } (base.hold dump.slot) bounds =
          (dump.leave (base.hold dump.slot)).work (base.hold dump.slot) bounds +
            (bounds dump.slot - dump.place + 1) := work_listing dump dump.place
      rw [listing] at whole
      exact .inr ⟨rfl, started, whole⟩

/-- A step ends the dump, with a fault or with the last message, or its message leaves less work
than before. -/
theorem step_goes (borrows : Borrows table middle dump) (going : dump.finished = false)
    (bounded : middle.AllListWithin bounds) (inside : dump.place ≤ bounds dump.slot) :
    (∃ next ended fault, dump.step middle limit = (next, ended, .error fault) ∧
      ended.finished = true) ∨
    (∃ ended, dump.step middle limit = (middle, ended,
      .ok (some (Message.Done.encode dump.sequence dump.sender 0))) ∧ ended.finished = true) ∨
    ∃ next later bytes, dump.step middle limit = (next, later, .ok (some bytes)) ∧
      later.finished = false ∧ later.sequence = dump.sequence ∧ later.sender = dump.sender ∧
      later.place ≤ bounds later.slot ∧ later.work next bounds < dump.work middle bounds := by
  cases sought : dump.seek middle with
  | error fault => exact .inl ⟨_, _, fault, step_of_error going sought, rfl⟩
  | ok outcome =>
      obtain ⟨found, reached⟩ := outcome
      cases reached with
      | none => exact .inr (.inl ⟨_, step_of_end going sought, rfl⟩)
      | some entry =>
          have step : dump.step middle limit = found.advance middle entry limit :=
            step_of_seek going sought
          have kept : found.finished = dump.finished ∧ found.sequence = dump.sequence ∧
              found.sender = dump.sender := by
            rw [seek_eq sought]
            exact ⟨rfl, rfl, rfl⟩
          have there := (seek_ok sought).2.1
          have lists := bounded found.slot entry.storage (Table.storage_of_get there rfl)
            (found.holding middle)
          have left := work_of_seek bounds borrows sought
          have inside : found.place ≤ bounds found.slot := by
            obtain ⟨idle, -⟩ | ⟨rfl, -⟩ := left
            · simp [place, idle]
            · exact inside
          have labels : Table.SameLabels middle (dump.step middle limit).1 :=
            .of_edits (edits_step dump middle limit : Table.Edits .add middle _)
          obtain ⟨fault, failed⟩ | ⟨bytes, later, sent, goes⟩ := advance_goes lists inside
          · exact .inl ⟨_, _, fault, step.trans (Prod.ext rfl failed), rfl⟩
          · refine .inr (.inr ⟨_, later, bytes, Prod.ext rfl ((congrArg _ step).trans sent), ?_⟩)
            rw [work_congr labels]
            obtain ⟨goesOn, sequence, sender⟩ := kept
            rw [going] at goesOn
            obtain rfl | ⟨next, rfl, bound, forward⟩ := goes
            · exact ⟨goesOn, sequence, sender, Nat.zero_le _, by omega⟩
            · refine ⟨goesOn, sequence, sender, bound, ?_⟩
              rw [work_listing]
              obtain ⟨-, before⟩ | ⟨-, started, before⟩ := left
              · omega
              · have moved := forward started
                omega

theorem end_exists (borrows : Borrows table middle dump) (going : dump.finished = false)
    (bounded : middle.AllListWithin bounds) (inside : dump.place ≤ bounds dump.slot) (limit : Nat) :
    ∃ messages after ended,
      (Sending limit middle dump
          (messages ++ [Message.Done.encode dump.sequence dump.sender 0]) after ended ∨
        ∃ fault, Fails limit middle dump messages fault after ended) ∧
      ended.finished = true := by
  -- Each message leaves less work, so the induction is on what is left of it.
  generalize left : dump.work middle bounds = work
  induction work using Nat.strongRecOn generalizing middle dump with
  | _ work ih =>
      obtain ⟨next, ended, fault, failed, finished⟩ | ⟨ended, last, finished⟩ |
        ⟨next, later, bytes, sent, goesOn, sequence, sender, within, less⟩ :=
          step_goes borrows going bounded inside
      · exact ⟨[], next, ended, .inr ⟨fault, middle, dump, .nil middle dump, failed⟩, finished⟩
      · exact ⟨[], middle, ended, .inl (.cons last (.nil middle ended)), finished⟩
      · have lent := borrows.step limit
        rw [sent] at lent
        have boundedNext : next.AllListWithin bounds := by
          intro slot storage stored
          have same := storage_step dump middle limit slot
          rw [sent] at same
          exact bounded slot storage (same ▸ stored)
        obtain ⟨messages, after, ended, ends, finished⟩ :=
          ih _ (left ▸ less) lent goesOn boundedNext within rfl
        rw [sequence, sender] at ends
        refine ⟨bytes :: messages, after, ended, ?_, finished⟩
        obtain sending | ⟨fault, last, between, sending, failed⟩ := ends
        · exact .inl (.cons sent sending)
        · exact .inr ⟨fault, last, between, .cons sent sending, failed⟩

/-! ## Elements that do not fit -/

/-- A dump has come to a set with an element for which there is no room in a message that does not
describe the set. Neither is there any in the first message, or not even for the description. -/
structure Blocked (dump found : Dump) (table : Table σ) (entry : Entry σ) (limit : Nat) :
    Prop where
  going : dump.finished = false
  sought : dump.seek table = .ok (found, some entry)
  later : ∃ bytes, found.message (found.holding table) (found.shown entry) limit
    false found.place = .ok (bytes, found.place, .more)
  first : found.cursor = none →
    (∃ bytes, found.message (found.holding table) (found.shown entry) limit
      true found.place = .ok (bytes, found.place, .more)) ∨
    ∃ fault, found.message (found.holding table) (found.shown entry) limit
      true found.place = .error fault ∧ fault.errno = .messageSize

theorem step_stuck {bytes : Bytes} (going : dump.finished = false)
    (sought : dump.seek table = .ok (found, some entry)) (started : found.cursor.isSome)
    (stuck : found.message (found.holding table) (found.shown entry) limit false found.place =
      .ok (bytes, found.place, .more)) :
    (dump.step table limit).2 =
      ({ found with cursor := none, finished := true }, .error .elementDoesNotFit) := by
  have sent : message { found with cursor := some found.place } (found.holding table)
      (found.shown entry) limit found.cursor.isNone found.place =
        .ok (bytes, found.place, .more) := by
    rw [Option.isNone_eq_false_iff.mpr started]
    exact stuck
  rw [step_of_seek going sought]
  exact advance_stuck started sent

omit [ForeignStorage σ] in
theorem seek_again (idle : found.cursor = none)
    (sought : dump.seek table = .ok (found, some entry)) (next : Nat) :
    seek { found with cursor := some next } (found.holding table) =
      .ok ({ found with cursor := some next }, some (found.shown entry)) := by
  obtain ⟨-, there, visits⟩ := seek_ok sought
  have held := Table.get_hold there
  have placed : Placed { found with cursor := some next } (table.hold found.slot) :=
    fun _ => ⟨entry.hold, held, visits entry rfl⟩
  obtain ⟨other, here, again⟩ := placed.seek rfl
  cases held.symm.trans here
  rw [holding_idle idle, shown_idle idle, again]

theorem Blocked.fails (blocked : dump.Blocked found table entry limit) :
    ∃ messages fault after ended, messages.length ≤ 1 ∧ fault.errno = .messageSize ∧
      Fails limit table dump messages fault after ended ∧ ended.finished = true := by
  obtain ⟨going, sought, ⟨bytes, stuck⟩, first⟩ := blocked
  cases started : found.cursor with
  | some cursor =>
      have failed := step_stuck going sought (by simp [started]) stuck
      exact ⟨[], _, _, _, Nat.zero_le 1, rfl,
        ⟨table, dump, .nil table dump, Prod.ext rfl failed⟩, rfl⟩
  | none =>
      have step : dump.step table limit = found.advance table entry limit :=
        step_of_seek going sought
      have isFirst : found.cursor.isNone = true := by simp [started]
      obtain ⟨header, described⟩ | ⟨fault, failed, size⟩ := first started
      · have sent : found.advance table entry limit = (found.holding table,
            { found with cursor := some found.place }, .ok (some header)) := by
          refine advance_more (by simp [started]) ?_
          rw [isFirst]
          exact described
        have goesOn : ({ found with cursor := some found.place } : Dump).finished = false := by
          rw [seek_eq sought]
          exact going
        -- The dump comes to the same set again, which it has described by now.
        have again := seek_again started sought found.place
        have failed := step_stuck goesOn again rfl stuck
        exact ⟨[header], _, _, _, Nat.le_refl 1, rfl,
          ⟨_, _, .cons (step.trans sent) (.nil _ _), Prod.ext rfl failed⟩, rfl⟩
      · have ends : (found.advance table entry limit).2 =
            ({ found with cursor := none, finished := true }, .error fault) := by
          refine advance_failed ?_
          rw [isFirst]
          exact failed
        exact ⟨[], fault, _, _, Nat.zero_le 1, size,
          ⟨table, dump, .nil table dump, step.trans (Prod.ext rfl ends)⟩, rfl⟩

/-! ## Dumps end -/

omit [ForeignStorage σ] in
theorem start_ok {name? : Option SetName} {sequence sender : UInt32}
    (started : start table name? sequence sender = .ok dump) :
    dump.cursor = none ∧ dump.finished = false ∧ dump.sequence = sequence ∧
      dump.sender = sender := by
  cases name? with
  | none =>
      cases started
      exact ⟨rfl, rfl, rfl, rfl⟩
  | some name =>
      simp only [start] at started
      split at started
      · contradiction
      · cases started
        exact ⟨rfl, rfl, rfl, rfl⟩

/-- Undisturbed, every dump comes to its end, with its last message or with a fault. If it comes
to an element that is too large, the fault comes at once or behind the description of the set.
However it ends, no message follows, and the references to all sets are what they were. -/
theorem start_ends {earlier : Table σ} {name? : Option SetName} {sequence sender : UInt32}
    (started : start earlier name? sequence sender = .ok dump)
    (steady : ∀ slot storage,
      table.storage? slot = some (.foreign storage) → ForeignStorage.Steady storage)
    (limit : Nat) :
    (∃ messages after ended,
      (Sending limit table dump
          (messages ++ [Message.Done.encode sequence sender 0]) after ended ∨
        ∃ fault, Fails limit table dump messages fault after ended) ∧
      Over table after ended) ∧
    ∀ sent middle reached found entry, Sending limit table dump sent middle reached →
      reached.Blocked found middle entry limit →
        ∃ messages fault after ended, messages.length ≤ 1 ∧ fault.errno = .messageSize ∧
          Fails limit table dump (sent ++ messages) fault after ended ∧
          Over table after ended := by
  obtain ⟨idle, going, rfl, rfl⟩ := start_ok started
  have borrows : Borrows table table dump := .nothing idle (.refl table)
  constructor
  · obtain ⟨bounds, within⟩ := Table.allListWithin_exists steady
    have inside : dump.place ≤ bounds dump.slot := by simp [place, idle]
    obtain ⟨messages, after, ended, ends, finished⟩ :=
      end_exists borrows going within inside limit
    refine ⟨messages, after, ended, ends, ?_⟩
    obtain sending | ⟨fault, failing⟩ := ends
    · exact (borrows.sending sending).over finished
    · exact (borrows.fails failing).over finished
  · intro sent middle reached found entry sending blocked
    obtain ⟨messages, fault, after, ended, few, size, ⟨last, between, rest, failed⟩, finished⟩ :=
      blocked.fails
    have failing : Fails limit table dump (sent ++ messages) fault after ended :=
      ⟨last, between, sending.append rest, failed⟩
    exact ⟨messages, fault, after, ended, few, size, failing,
      (borrows.fails failing).over finished⟩

end Steps

/-! ## A set with one large element -/

/-- A storage from outside whose only element takes some number of bytes. -/
structure Slab where
  size : Nat

instance : ForeignStorage Slab where
  create blank _ _ := .ok blank
  testPacket slab _ := (slab, .ok true)
  addPacket slab _ := (slab, .error .elementExists)
  deletePacket slab _ := (slab, .error .hashFull)
  test slab _ := (slab, .ok true)
  add slab _ := (slab, .error .elementExists)
  delete slab _ := (slab, .error .hashFull)
  flush slab := slab
  describe _ draft := (draft, .ok ())
  list slab cursor draft :=
    let stone := .value { number := Message.Argument.dataNumber } (List.replicate slab.size 0)
    let (written, next, progress) :=
      Table.write draft cursor (if cursor = 0 then [(some stone, 1)] else [])
    (written, next, .ok progress)

theorem Slab.steady (slab : Slab) : ForeignStorage.Steady slab := by
  refine ⟨1, fun _ cursor bounded draft =>
    Table.write_between draft ⟨Nat.le_refl cursor, bounded⟩ fun listed present => ?_⟩
  split at present
  · cases List.mem_singleton.mp present
    exact ⟨bounded, Nat.le_refl 1⟩
  · contradiction

def slabName : SetName where
  text := "slab"
  nonempty := by decide
  short := by decide
  noNul := by decide

def slabEntry : Entry Slab where
  name := slabName
  type :=
    { name := "slab", family := .unspecified, revision := 0, dimension := 1, features := {}
      maker := .foreign ⟨64⟩ }
  family := .unspecified
  references := 0
  storage := .foreign ⟨64⟩

def slabTable : Table Slab where
  slots := #[some slabEntry]

def slabDump : Dump :=
  { mode := .all, slot := 0, cursor := none, sequence := 7, sender := 9, finished := false }

theorem slabDump_blocked : slabDump.Blocked slabDump slabTable slabEntry 96 where
  going := rfl
  sought := rfl
  later := ⟨_, rfl⟩
  first _ := .inl ⟨_, rfl⟩

theorem start_ends_slab :
    start slabTable none 7 9 = .ok slabDump ∧
    (∀ slot storage, slabTable.storage? slot = some (.foreign storage) →
      ForeignStorage.Steady storage) ∧
    (∃ messages after ended,
      (Sending 96 slabTable slabDump (messages ++ [Message.Done.encode 7 9 0]) after ended ∨
        ∃ fault, Fails 96 slabTable slabDump messages fault after ended) ∧
      Over slabTable after ended) ∧
    slabDump.Blocked slabDump slabTable slabEntry 96 ∧
    ∃ messages fault after ended, messages.length ≤ 1 ∧ fault.errno = .messageSize ∧
      Fails 96 slabTable slabDump messages fault after ended ∧ Over slabTable after ended := by
  have started : start slabTable none 7 9 = .ok slabDump := rfl
  have steady (slot : Nat) (storage : Slab)
      (_ : slabTable.storage? slot = some (.foreign storage)) : ForeignStorage.Steady storage :=
    storage.steady
  obtain ⟨ends, blocked⟩ := start_ends started steady 96
  exact ⟨started, steady, ends, slabDump_blocked,
    blocked [] slabTable slabDump slabDump slabEntry (.nil slabTable slabDump) slabDump_blocked⟩

end Dump

end NamedSets
