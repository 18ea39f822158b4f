import NamedSets.Proofs.Dump
import NamedSets.Proofs.Dump.Page
import NamedSets.Proofs.Table.Listable

namespace NamedSets.Dump

open Table (SameLabels)

variable {σ : Type} {dump found : Dump} {table : Table σ} {entry : Entry σ} {limit : Nat}

def place (dump : Dump) : Nat := dump.cursor.getD 0

def leave (dump : Dump) (table : Table σ) : Dump :=
  { dump with
    cursor := none
    slot := if dump.mode = .one then table.capacity else dump.slot + 1 }

def listedUpTo (dump : Dump) (table : Table σ) (entry : Entry σ) (next : Nat) :
    List (Nat × List Datum) :=
  (table.elementsFrom entry.storage dump.place).filter (·.1 < next)

/-- The set as the message about it shows it: the first message comes with a reference. -/
def shown (dump : Dump) (entry : Entry σ) : Entry σ :=
  if dump.cursor.isNone then entry.hold else entry

/-- A message is about a set and lists its elements up to a place, from where the dump goes on,
or to the end, with which it leaves the set. -/
structure Sends [ForeignStorage σ] (dump : Dump) (table : Table σ) (entry : Entry σ) (limit : Nat)
    (bytes : Bytes) (page : Page) (next : Nat) : Prop where
  short : bytes.length ≤ limit
  read : Page.read? bytes = some page
  tells : page.Tells dump (dump.shown entry) dump.cursor.isNone (dump.listedUpTo table entry next)
  goes : (dump.place < next ∧
      (∃ element ∈ table.elementsFrom entry.storage dump.place, next ≤ element.1) ∧
      dump.advance table entry limit =
        (dump.holding table, { dump with cursor := some next }, .ok (some bytes))) ∨
    ((∀ element ∈ table.elementsFrom entry.storage dump.place, element.1 < next) ∧
      dump.advance table entry limit =
        ((dump.holding table).release dump.slot, dump.leave table, .ok (some bytes)))

theorem storage_shown (dump : Dump) (entry : Entry σ) :
    (dump.shown entry).storage = entry.storage := by
  unfold shown
  split <;> rfl

theorem shown_idle (idle : dump.cursor = none) : dump.shown entry = entry.hold := by
  simp [shown, idle]

theorem shown_started (started : dump.cursor.isSome) : dump.shown entry = entry := by
  simp [shown, Option.isNone_eq_false_iff.mpr started]

theorem advance_done [ForeignStorage σ] {bytes : Bytes} {next : Nat}
    (sent : message { dump with cursor := some dump.place } (dump.holding table)
      (dump.shown entry) limit dump.cursor.isNone dump.place = .ok (bytes, next, .done)) :
    dump.advance table entry limit =
      ((dump.holding table).release dump.slot, dump.leave table, .ok (some bytes)) := by
  cases started : dump.cursor <;>
    simp only [place, started, holding, shown, Option.isNone_none, Option.isNone_some,
      Option.getD_none, Option.getD_some, if_true, Bool.false_eq_true, if_false] at sent <;>
    simp [advance, started, sent, holding, leave]

theorem advance_more [ForeignStorage σ] {bytes : Bytes} {next : Nat}
    (further : dump.cursor.isSome → next ≠ dump.place)
    (sent : message { dump with cursor := some dump.place } (dump.holding table)
      (dump.shown entry) limit dump.cursor.isNone dump.place = .ok (bytes, next, .more)) :
    dump.advance table entry limit =
      (dump.holding table, { dump with cursor := some next }, .ok (some bytes)) := by
  cases started : dump.cursor with
  | none =>
      simp only [place, started, holding, shown, Option.isNone_none, Option.getD_none, if_true]
        at sent
      simp [advance, started, sent, holding]
  | some start =>
      simp only [place, started, holding, shown, Option.isNone_some, Option.isSome_some,
        Option.getD_some, Bool.false_eq_true, if_false, forall_const] at sent further
      simp [advance, started, sent, holding, further]

theorem advance_sends [ForeignStorage σ] (dump : Dump) (all : table.AllListable)
    (there : table.get? dump.slot = some entry) (large : 512 ≤ limit) (small : limit ≤ 65535) :
    ∃ bytes page next, dump.Sends table entry limit bytes page next := by
  -- The set as it is shown has another count of references, but the same elements.
  obtain ⟨builtin, listable⟩ := all dump.slot entry there
  have names := (sameLabels_holding dump table).name
  have stored := dump.storage_shown entry
  have shownBuiltin : (dump.shown entry).Builtin := by
    unfold shown
    split <;> exact builtin
  have held : (dump.holding table).Listable (dump.shown entry).storage := by
    rw [stored]
    exact listable.congr names
  have same : (dump.holding table).elementsFrom (dump.shown entry).storage dump.place =
      table.elementsFrom entry.storage dump.place := by
    rw [stored, Table.elementsFrom, Table.elements_congr names, Table.elementsFrom]
  obtain ⟨bytes, next, progress, page, sent, short, read, tells, ended, further⟩ :=
    message_page { dump with cursor := some dump.place } shownBuiltin held large small
      dump.cursor.isNone dump.place
  rw [same] at tells ended further
  refine ⟨bytes, page, next, short, read,
    ⟨tells.sequence, tells.sender, tells.name, tells.first, tells.described, tells.parameters,
      tells.elements⟩, ?_⟩
  cases progress with
  | done => exact .inr ⟨ended rfl, advance_done sent⟩
  | more =>
      obtain ⟨forward, left⟩ := further rfl
      exact .inl ⟨forward, left, advance_more (fun _ => Nat.ne_of_gt forward) sent⟩

/-! ## What a step does -/

theorem seek_eq {reached : Option (Entry σ)} (sought : dump.seek table = .ok (found, reached)) :
    found = { dump with mode := found.mode, slot := found.slot } := by
  unfold seek at sought
  split at sought
  · split at sought
    · cases sought
      rfl
    · split at sought
      · cases sought
        rfl
      · contradiction
  · split at sought <;> cases sought <;> rfl
  · cases sought
    rfl

/-- Only the single set of a dump can be missing. -/
theorem seek_error {fault : Fault} (failed : dump.seek table = .error fault) :
    dump.mode = .one ∧ table.get? dump.slot = none ∧ fault = .setDestroyed := by
  unfold seek at failed
  split at failed
  · rename_i mode
    split at failed
    · contradiction
    · split at failed
      · contradiction
      · rename_i vacant
        cases failed
        exact ⟨mode, vacant, rfl⟩
  · split at failed <;> contradiction
  · contradiction

/-- A dump of several sets, or of a set that is there, comes to a set or to its end. -/
theorem seek_exists (present : dump.mode = .one → dump.slot < table.capacity →
    ∃ entry, table.get? dump.slot = some entry) :
    ∃ found reached, dump.seek table = .ok (found, reached) := by
  cases sought : dump.seek table with
  | ok outcome => exact ⟨outcome.1, outcome.2, rfl⟩
  | error fault =>
      obtain ⟨mode, vacant, -⟩ := seek_error sought
      by_cases inside : dump.slot < table.capacity
      · obtain ⟨entry, there⟩ := present mode inside
        simp [vacant] at there
      · simp [seek, mode, Nat.not_lt.mp inside] at sought

theorem step_of_seek [ForeignStorage σ] (going : dump.finished = false)
    (sought : dump.seek table = .ok (found, some entry)) :
    dump.step table limit = found.advance table entry limit := by
  simp only [step, going, Bool.false_eq_true, if_false, sought]

theorem step_of_end [ForeignStorage σ] (going : dump.finished = false)
    (sought : dump.seek table = .ok (found, none)) :
    dump.step table limit = (table, { found with finished := true },
      .ok (some (Message.Done.encode dump.sequence dump.sender 0))) := by
  have same := seek_eq sought
  rw [same] at sought ⊢
  simp only [step, going, Bool.false_eq_true, if_false, sought]

/-- What a step of a dump does: it answers nothing as the dump is over, finds that the set to be
listed has gone, ends the dump, or sends a page about the set that it comes to. -/
inductive Stepped [ForeignStorage σ] (dump : Dump) (table : Table σ) (limit : Nat) : Prop
  | spent (finished : dump.finished = true)
      (step : dump.step table limit = (table, dump, .ok none))
  | gone (mode : dump.mode = .one) (idle : dump.cursor = none)
      (vacant : table.get? dump.slot = none)
      (step : dump.step table limit =
        (table, { dump with finished := true }, .error .setDestroyed))
  | ended (found : Dump) (going : dump.finished = false)
      (sought : dump.seek table = .ok (found, none)) (idle : dump.cursor = none)
      (step : dump.step table limit = (table, { found with finished := true },
        .ok (some (Message.Done.encode dump.sequence dump.sender 0))))
  | sent (found : Dump) (entry : Entry σ) (bytes : Bytes) (page : Page) (next : Nat)
      (going : dump.finished = false)
      (sought : dump.seek table = .ok (found, some entry))
      (there : table.get? found.slot = some entry)
      (sends : found.Sends table entry limit bytes page next)
      (step : dump.step table limit = found.advance table entry limit)

theorem stepped [ForeignStorage σ] (all : table.AllListable) (placed : dump.Placed table)
    (large : 512 ≤ limit) (small : limit ≤ 65535) : dump.Stepped table limit := by
  cases going : dump.finished with
  | true => exact .spent going (by rw [step, if_pos going])
  | false =>
      have started : ¬ dump.finished = true := by simp [going]
      cases sought : dump.seek table with
      | error fault =>
          obtain ⟨mode, vacant, rfl⟩ := seek_error sought
          have idle := placed.idle (by simp [sought])
          refine .gone mode idle vacant ?_
          simp only [step, if_neg started, sought, abort, release, idle]
      | ok outcome =>
          obtain ⟨found, reached⟩ := outcome
          cases reached with
          | none =>
              exact .ended found going sought (placed.idle (by simp [sought]))
                (step_of_end going sought)
          | some entry =>
              have there := (seek_ok sought).2.1
              obtain ⟨bytes, page, next, sends⟩ := found.advance_sends all there large small
              exact .sent found entry bytes page next going sought there sends
                (step_of_seek going sought)

/-! ## The sets to come -/

def visited (table : Table σ) (listedLast : Bool) (start : Nat) : List Nat :=
  (List.range' start (table.capacity - start)).filter fun slot =>
    (table.get? slot).any (·.type.features.listedLast = listedLast)

/-- The slots that a dump has still to come to, apart from the one that it is listing. -/
def upcoming (dump : Dump) (table : Table σ) : List Nat :=
  let start := if dump.cursor.isNone then dump.slot else dump.slot + 1
  match dump.mode with
  | .one => if dump.cursor.isNone && dump.slot < table.capacity then [dump.slot] else []
  | .all => visited table false start ++ visited table true 0
  | .last => visited table true start

theorem mem_visited {listedLast : Bool} {start slot : Nat} :
    slot ∈ visited table listedLast start ↔ start ≤ slot ∧
      ∃ entry, table.get? slot = some entry ∧ entry.type.features.listedLast = listedLast := by
  rw [visited, List.mem_filter, List.mem_range'_1]
  constructor
  · rintro ⟨⟨behind, -⟩, kind⟩
    cases there : table.get? slot with
    | none => simp [there] at kind
    | some entry => exact ⟨behind, entry, rfl, by simpa [there] using kind⟩
  · rintro ⟨behind, entry, there, kind⟩
    have inside := Table.lt_capacity_of_get there
    exact ⟨⟨behind, by omega⟩, by simp [there, kind]⟩

private theorem filter_range'_of_find {test : Nat → Bool} {start count first : Nat}
    (found : (List.range' start count).find? test = some first) :
    (List.range' start count).filter test =
      first :: (List.range' (first + 1) (start + count - (first + 1))).filter test := by
  induction count generalizing start with
  | zero => simp at found
  | succ count ih =>
      rw [List.range'_succ] at found ⊢
      by_cases passes : test start
      · rw [List.find?_cons_of_pos passes] at found
        cases found
        rw [List.filter_cons_of_pos passes]
        congr 3
        omega
      · rw [List.find?_cons_of_neg passes] at found
        rw [List.filter_cons_of_neg passes, ih found]
        congr 3
        omega

theorem visited_of_next {listedLast : Bool} {start slot : Nat}
    (next : nextSlot table listedLast start = some slot) :
    visited table listedLast start = slot :: visited table listedLast (slot + 1) := by
  obtain ⟨entry, there, -⟩ := nextSlot_some next
  have inside := Table.lt_capacity_of_get there
  have behind := (List.mem_range'_1.mp (List.mem_of_find?_eq_some next)).1
  have same : start + (table.capacity - start) - (slot + 1) = table.capacity - (slot + 1) := by
    omega
  rw [visited, filter_range'_of_find next, same, visited]

theorem visited_eq_nil {listedLast : Bool} {start : Nat}
    (none : nextSlot table listedLast start = none) : visited table listedLast start = [] := by
  rw [visited, List.filter_eq_nil_iff]
  exact List.find?_eq_none.mp none

theorem upcoming_of_end (idle : dump.cursor = none)
    (sought : dump.seek table = .ok (found, none)) : dump.upcoming table = [] := by
  have lastPass {start : Nat}
      (absent : table.get? ((nextSlot table true start).getD table.capacity) = none) :
      visited table true start = [] := by
    cases next : nextSlot table true start with
    | none => exact visited_eq_nil next
    | some slot =>
        obtain ⟨entry, there, -⟩ := nextSlot_some next
        simp [next, there] at absent
  cases mode : dump.mode with
  | one =>
      simp only [seek, mode] at sought
      split at sought
      · rename_i outside
        simp [upcoming, mode, Nat.not_lt.mpr outside]
      · split at sought <;> simp at sought
  | all =>
      simp only [seek, mode] at sought
      split at sought
      · rename_i slot next
        obtain ⟨entry, there, -⟩ := nextSlot_some next
        simp [there] at sought
      · rename_i next
        simp only [Except.ok.injEq, Prod.mk.injEq] at sought
        simp [upcoming, mode, idle, visited_eq_nil next, lastPass sought.2]
  | last =>
      simp only [seek, mode, Except.ok.injEq, Prod.mk.injEq] at sought
      simp [upcoming, mode, idle, lastPass sought.2]

/-- A dump comes to the first of the slots to come. -/
theorem upcoming_of_seek (idle : dump.cursor = none)
    (sought : dump.seek table = .ok (found, some entry)) :
    dump.upcoming table = found.slot :: (found.leave table).upcoming table := by
  have lastPass {start : Nat}
      (there : table.get? ((nextSlot table true start).getD table.capacity) = some entry) :
      visited table true start = (nextSlot table true start).getD table.capacity ::
        visited table true ((nextSlot table true start).getD table.capacity + 1) := by
    cases next : nextSlot table true start with
    | none =>
        rw [next, Option.getD_none] at there
        exact absurd (Table.lt_capacity_of_get there) (Nat.lt_irrefl _)
    | some slot => rw [visited_of_next next, Option.getD_some]
  cases mode : dump.mode with
  | one =>
      simp only [seek, mode] at sought
      split at sought
      · simp at sought
      · rename_i inside
        split at sought
        · cases sought
          simp [upcoming, leave, mode, idle, Nat.not_le.mp inside]
        · contradiction
  | all =>
      simp only [seek, mode] at sought
      split at sought
      · rename_i slot next
        simp only [Except.ok.injEq, Prod.mk.injEq] at sought
        obtain ⟨rfl, -⟩ := sought
        simp [upcoming, leave, mode, idle, visited_of_next next]
      · rename_i next
        simp only [Except.ok.injEq, Prod.mk.injEq] at sought
        obtain ⟨rfl, there⟩ := sought
        simp [upcoming, leave, mode, idle, visited_eq_nil next, lastPass there]
  | last =>
      simp only [seek, mode, Except.ok.injEq, Prod.mk.injEq] at sought
      obtain ⟨rfl, there⟩ := sought
      simp [upcoming, leave, mode, idle, lastPass there]

/-- The set that is listed is no more to come. -/
theorem upcoming_of_cursor (started : dump.cursor.isSome) :
    dump.upcoming table = (dump.leave table).upcoming table := by
  obtain ⟨cursor, same⟩ := Option.isSome_iff_exists.mp started
  cases mode : dump.mode <;> simp [upcoming, leave, mode, same]

end NamedSets.Dump
