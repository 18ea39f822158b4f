import NamedSets.Proofs.Session.ListListings
import NamedSets.Proofs.Session.Undisturbed

/-!
# Sweeps

A dump of all sets sweeps the table in two passes, while sets come and go and are exchanged. A
slot that stays occupied stays in the same pass, so that it is still to come until the dump
starts to list it, and never afterwards.
-/

namespace NamedSets

variable {σ : Type} {dump found : Dump} {table after : Table σ} {entry later : Entry σ} {slot : Nat}

/-! ## Dumps of several sets -/

namespace Dump

theorem seek_mode {reached : Option (Entry σ)} (several : dump.mode ≠ .one)
    (sought : dump.seek table = .ok (found, reached)) :
    found.mode ≠ .one ∧ (dump.mode = .last → found.mode = .last) := by
  cases mode : dump.mode with
  | one => exact absurd mode several
  | all =>
      simp only [seek, mode] at sought
      split at sought <;> cases sought <;> simp
  | last =>
      simp only [seek, mode, Except.ok.injEq, Prod.mk.injEq] at sought
      obtain ⟨rfl, -⟩ := sought
      simp

/-- A slot that stays in the same pass stays among those to come. -/
theorem mem_upcoming_congr (several : dump.mode ≠ .one) (before : table.get? slot = some entry)
    (behind : after.get? slot = some later)
    (same : later.type.features.listedLast = entry.type.features.listedLast) :
    slot ∈ dump.upcoming after ↔ slot ∈ dump.upcoming table := by
  have visit (listedLast : Bool) (start : Nat) :
      slot ∈ visited after listedLast start ↔ slot ∈ visited table listedLast start := by
    simp [mem_visited, before, behind, same]
  cases mode : dump.mode with
  | one => exact absurd mode several
  | all => simp only [upcoming, mode, List.mem_append, visit]
  | last => simp only [upcoming, mode, visit]

theorem not_mem_upcoming_leave (several : dump.mode ≠ .one)
    (there : table.get? dump.slot = some entry)
    (visits : dump.mode.Visits entry.type.features.listedLast) :
    dump.slot ∉ (dump.leave table).upcoming table := by
  cases mode : dump.mode with
  | one => exact absurd mode several
  | all =>
      have first := visits.1 mode
      simp [upcoming, leave, mode, mem_visited, there, first]
  | last => simp [upcoming, leave, mode, mem_visited]

end Dump

namespace Session

variable {session : Session σ} {operation : Operation σ} {operations : List (Operation σ)}
  {index : Nat}

def Over (session : Session σ) (index : Nat) : Prop :=
  ∃ dump, session.dumps[index]? = some dump ∧ dump.finished = true

theorem not_over (here : session.dumps[index]? = some dump) (going : dump.finished = false) :
    ¬ session.Over index := by
  rintro ⟨other, there, finished⟩
  cases here.symm.trans there
  simp [going] at finished

def toCome (session : Session σ) (index : Nat) : List Nat :=
  match session.dumps[index]? with
  | some dump => if dump.finished then [] else dump.upcoming session.table
  | none => []

theorem toCome_of_going (here : session.dumps[index]? = some dump) (going : dump.finished = false) :
    session.toCome index = dump.upcoming session.table := by
  simp [toCome, here, going]

theorem toCome_of_over (spent : session.Over index) : session.toCome index = [] := by
  obtain ⟨dump, here, finished⟩ := spent
  simp [toCome, here, finished]

variable [ForeignStorage σ]

structure Swept (session : Session σ) (index : Nat) (dump later : Dump) : Prop where
  dumped : (session.after (.stepDump index)).dumps[index]? = some later
  several : later.mode ≠ .one
  pass : dump.mode = .last → later.mode = .last
  sequence : later.sequence = dump.sequence
  sender : later.sender = dump.sender
  answer : ∃ message?, (session.turn index).answer? index = some (.ok message?)
  done : dump.finished = false → later.finished = true →
    (session.turn index).answer? index =
      some (.ok (some (Message.Done.encode dump.sequence dump.sender 0)))
  headed : ∀ slot entry, (session.turn index).headed? index = some (slot, entry) →
    (dump.mode = .last → entry.type.features.listedLast = true) ∧
      (entry.type.features.listedLast = true → later.mode = .last)
  visits : ∀ slot, (dump.finished = false → ∃ entry, session.table.get? slot = some entry) →
    (((session.turn index).headed? index).map (·.1)).toList.count slot +
        (if slot ∈ (session.after (.stepDump index)).toCome index then 1 else 0) =
      if slot ∈ session.toCome index then 1 else 0

theorem mem_toCome_after (several : dump.mode ≠ .one)
    (before : session.table.get? slot = some entry)
    (behind : (session.after operation).table.get? slot = some later) :
    slot ∈ dump.upcoming (session.after operation).table ↔ slot ∈ dump.upcoming session.table :=
  Dump.mem_upcoming_congr several before behind
    ((session.after_reform operation).listedLast_eq before behind)

theorem Sent.swept {later : Dump} {page : Page} {next : Nat} (several : dump.mode ≠ .one)
    (reachable : session.Reachable Balanced) (here : session.dumps[index]? = some dump)
    (sent : session.Sent index dump found entry page next later) :
    session.Swept index dump later := by
  obtain ⟨severalFound, pass⟩ := Dump.seek_mode several sent.sought
  obtain ⟨sameCursor, there, visits⟩ := Dump.seek_ok sent.sought
  have sameDump := Dump.seek_eq sent.sought
  obtain ⟨mode, sequence, sender, finished⟩ : later.mode = found.mode ∧
      later.sequence = found.sequence ∧ later.sender = found.sender ∧
      later.finished = found.finished := by
    obtain ⟨-, rfl⟩ | ⟨-, rfl⟩ := sent.goes <;> exact ⟨rfl, rfl, rfl, rfl⟩
  have unfinished : later.finished = false := by
    rw [finished, sameDump]
    exact sent.going
  obtain ⟨bytes, answer⟩ := sent.answer
  refine ⟨sent.dumped, mode ▸ severalFound, fun last => mode ▸ pass last,
    sequence.trans (by rw [sameDump]), sender.trans (by rw [sameDump]), ⟨_, answer⟩,
    fun _ finished => by simp [unfinished] at finished, ?_, ?_⟩
  · intro slot listed headed
    rw [sent.headed] at headed
    split at headed
    · cases headed
      refine ⟨fun last => (visits entry rfl).2 (pass last), fun listedLast => ?_⟩
      rw [mode]
      cases first : found.mode with
      | one => exact absurd first severalFound
      | all => simp [(visits entry rfl).1 first] at listedLast
      | last => rfl
    · contradiction
  · intro slot lasting
    obtain ⟨stored, occupied⟩ := lasting sent.going
    have left : later.upcoming session.table =
        (found.leave session.table).upcoming session.table := by
      obtain ⟨-, rfl⟩ | ⟨-, rfl⟩ := sent.goes
      · exact Dump.upcoming_of_cursor rfl
      · rfl
    obtain ⟨storedLater, behind, -⟩ := (session.step_keeps index).2.get occupied
    have stays := mem_toCome_after (mode ▸ severalFound : later.mode ≠ .one) occupied behind
    rw [left] at stays
    rw [toCome_of_going here sent.going, toCome_of_going sent.dumped unfinished, sent.headed,
      if_congr stays rfl rfl]
    -- The first message about a set takes its slot from those to come; the others take nothing.
    cases started : dump.cursor with
    | none =>
        have gone := Dump.not_mem_upcoming_leave severalFound there (visits entry rfl)
        rw [Dump.upcoming_of_seek started sent.sought, Option.isNone_none, if_pos rfl]
        by_cases same : slot = found.slot
        · subst same
          simp [gone]
        · simp [same, Ne.symm same]
    | some cursor =>
        have placed := reachable.sound.placed dump (List.mem_of_getElem? here)
        obtain ⟨other, -, sought⟩ := placed.seek (by simp [started])
        cases sought.symm.trans sent.sought
        have same : dump.upcoming session.table =
            (dump.leave session.table).upcoming session.table :=
          Dump.upcoming_of_cursor (by simp [started])
        rw [same, Option.isNone_some]
        simp

theorem Reachable.swept (reachable : session.Reachable Balanced)
    (here : session.dumps[index]? = some dump) (several : dump.mode ≠ .one) :
    ∃ later, session.Swept index dump later := by
  cases reachable.turn here with
  | spent finished answer dumped =>
      have silent : (session.turn index).headed? index = none := by
        simp only [Moment.headed?, Moment.page?, answer]
      refine ⟨dump, dumped, several, id, rfl, rfl, ⟨none, answer⟩,
        fun going => by simp [going] at finished, by simp [silent], fun slot _ => ?_⟩
      rw [silent, toCome_of_over ⟨dump, here, finished⟩, toCome_of_over ⟨dump, dumped, finished⟩]
      rfl
  | gone mode => exact absurd mode several
  | ended found going idle sought answer silent dumped =>
      obtain ⟨severalFound, pass⟩ := Dump.seek_mode several sought
      have sameDump := Dump.seek_eq sought
      refine ⟨_, dumped, severalFound, pass, by rw [sameDump], by rw [sameDump], ⟨_, answer⟩,
        fun _ _ => answer, by simp [silent], fun slot _ => ?_⟩
      rw [silent, toCome_of_over ⟨_, dumped, rfl⟩, toCome_of_going here going,
        Dump.upcoming_of_end idle sought]
      rfl
  | sent found entry page next later sent => exact ⟨later, sent.swept several reachable here⟩

/-! ## Sweeps -/

/-- What holds of the end of a run, and in front of every step of a sweep and of any other operation
if it holds behind it, holds of the whole run, unless the sweep is abandoned. -/
theorem Reachable.sweep_induction (kept : Session σ → Dump → List (Operation σ) → Prop)
    (nil : ∀ session dump, session.dumps[index]? = some dump → kept session dump [])
    (step : ∀ session dump later operations, session.Reachable Balanced →
      session.dumps[index]? = some dump → session.Swept index dump later →
      kept (session.after (.stepDump index)) later operations →
      kept session dump (.stepDump index :: operations))
    (other : ∀ session dump operation operations, session.Reachable Balanced →
      session.dumps[index]? = some dump → dump.mode ≠ .one → operation ≠ .stepDump index →
      (session.after operation).dumps[index]? = some dump →
      kept (session.after operation) dump operations →
      kept session dump (operation :: operations))
    (reachable : session.Reachable Balanced) (here : session.dumps[index]? = some dump)
    (several : dump.mode ≠ .one) (balanced : session.AllBalanced operations)
    (unended : .endDump index ∉ operations) : kept session dump operations := by
  induction operations generalizing session dump with
  | nil => exact nil session dump here
  | cons operation rest ih =>
      have reachableAfter := reachable.after operation balanced.head
      have unendedRest : .endDump index ∉ rest := fun later =>
        unended (List.mem_cons_of_mem _ later)
      by_cases same : operation = .stepDump index
      · subst same
        obtain ⟨later, swept⟩ := reachable.swept here several
        exact step session dump later rest reachable here swept
          (ih reachableAfter swept.dumped swept.several balanced.tail unendedRest)
      · have notEnd : operation ≠ .endDump index := fun same => unended (same ▸ List.mem_cons_self)
        have dumped := dump_after here same notEnd
        exact other session dump operation rest reachable here several same dumped
          (ih reachableAfter dumped several balanced.tail unendedRest)

theorem Reachable.sweep_answers (reachable : session.Reachable Balanced)
    (here : session.dumps[index]? = some dump) (several : dump.mode ≠ .one)
    (balanced : session.AllBalanced operations) (unended : .endDump index ∉ operations) :
    ∀ fault, .error fault ∉ session.answers operations index := by
  refine Reachable.sweep_induction
    (fun session _ operations => ∀ fault, .error fault ∉ session.answers operations index)
    (fun _ _ _ _ => List.not_mem_nil) ?_ ?_ reachable here several balanced unended
  · intro session dump later operations _ _ swept behind fault
    obtain ⟨message, answer⟩ := swept.answer
    simpa [answers_turn, answer] using behind fault
  · intro session dump operation operations _ _ _ step _ behind fault
    rw [answers_other step]
    exact behind fault

theorem Reachable.sweep_done (reachable : session.Reachable Balanced)
    (here : session.dumps[index]? = some dump) (several : dump.mode ≠ .one)
    (balanced : session.AllBalanced operations) (unended : .endDump index ∉ operations)
    (going : dump.finished = false) (spent : (session.run operations).Over index) :
    .ok (some (Message.Done.encode dump.sequence dump.sender 0)) ∈
      session.answers operations index := by
  revert going spent
  refine Reachable.sweep_induction
    (fun session dump operations => dump.finished = false →
      (session.run operations).Over index →
      .ok (some (Message.Done.encode dump.sequence dump.sender 0)) ∈
        session.answers operations index)
    ?_ ?_ ?_ reachable here several balanced unended
  · intro session dump here going spent
    exact absurd spent (not_over here going)
  · intro session dump later operations _ _ swept behind going spent
    rw [answers_turn, List.mem_append, Option.mem_toList]
    cases finished : later.finished with
    | true => exact .inl (swept.done going finished)
    | false =>
        rw [← swept.sequence, ← swept.sender]
        exact .inr (behind finished spent)
  · intro session dump operation operations _ _ _ step _ behind
    rw [answers_other step]
    exact behind

/-- A sweep starts to list sets that are listed last after all others: once it is in its second
pass, it starts to list no others. -/
theorem Reachable.sweep_sorted (reachable : session.Reachable Balanced)
    (here : session.dumps[index]? = some dump) (several : dump.mode ≠ .one)
    (balanced : session.AllBalanced operations) (unended : .endDump index ∉ operations) :
    (dump.mode = .last →
      ∀ header ∈ session.headed operations index, header.2.type.features.listedLast = true) ∧
    (session.headed operations index).Pairwise fun earlier later =>
      earlier.2.type.features.listedLast = true → later.2.type.features.listedLast = true := by
  refine Reachable.sweep_induction
    (fun session dump operations => (dump.mode = .last →
      ∀ header ∈ session.headed operations index, header.2.type.features.listedLast = true) ∧
      (session.headed operations index).Pairwise fun earlier later =>
        earlier.2.type.features.listedLast = true → later.2.type.features.listedLast = true)
    (fun _ _ _ => ⟨fun _ _ present => (nomatch present), .nil⟩) ?_ ?_ reachable here several
    balanced unended
  · rintro session dump later operations - - swept ⟨behind, sorted⟩
    rw [headed_turn]
    refine ⟨fun last header => ?_, ?_⟩
    · rw [List.mem_append, Option.mem_toList]
      rintro (first | others)
      · exact (swept.headed header.1 header.2 first).1 last
      · exact behind (swept.pass last) header others
    · refine List.pairwise_append.mpr ⟨?_, sorted, fun first present other among listedLast => ?_⟩
      · cases (session.turn index).headed? index <;> simp
      · have header := Option.mem_toList.mp present
        exact behind ((swept.headed first.1 first.2 header).2 listedLast) other among
  · intro session dump operation operations _ _ _ step _ behind
    rw [headed_other step]
    exact behind

/-- A slot that stays occupied as long as a sweep goes on is listed once if it is still to come,
and otherwise not. -/
theorem Reachable.sweep_visits (reachable : session.Reachable Balanced)
    (here : session.dumps[index]? = some dump) (several : dump.mode ≠ .one)
    (balanced : session.AllBalanced operations) (unended : .endDump index ∉ operations)
    (spent : (session.run operations).Over index)
    (lasting : ∀ moment ∈ session.history operations, ¬ moment.session.Over index →
      ∃ entry, moment.session.table.get? slot = some entry) :
    ((session.headed operations index).map (·.1)).count slot =
      if slot ∈ session.toCome index then 1 else 0 := by
  revert spent lasting
  refine Reachable.sweep_induction
    (fun session dump operations => (session.run operations).Over index →
      (∀ moment ∈ session.history operations, ¬ moment.session.Over index →
        ∃ entry, moment.session.table.get? slot = some entry) →
      ((session.headed operations index).map (·.1)).count slot =
        if slot ∈ session.toCome index then 1 else 0)
    ?_ ?_ ?_ reachable here several balanced unended
  · intro session dump here spent lasting
    have spent : session.Over index := spent
    rw [toCome_of_over spent]
    rfl
  · intro session dump later operations _ here swept behind spent lasting
    have occupied (going : dump.finished = false) :
        ∃ entry, session.table.get? slot = some entry :=
      lasting (session.turn index) List.mem_cons_self (not_over here going)
    have visited := swept.visits slot occupied
    have others := behind spent fun moment later => lasting moment (List.mem_cons_of_mem _ later)
    rw [headed_turn, List.map_append, List.count_append, others, ← Option.toList_map, visited]
  · intro session dump operation operations _ here several step kept behind spent lasting
    have others := behind spent fun moment later => lasting moment (List.mem_cons_of_mem _ later)
    rw [headed_other step, others]
    -- Nothing is listed, and a slot that stays occupied stays in its pass.
    refine if_congr ?_ rfl rfl
    cases finished : dump.finished with
    | true =>
        rw [toCome_of_over ⟨dump, here, finished⟩, toCome_of_over ⟨dump, kept, finished⟩]
    | false =>
        rw [toCome_of_going here finished, toCome_of_going kept finished]
        obtain ⟨entry, before⟩ :=
          lasting { session, operation } List.mem_cons_self (not_over here finished)
        obtain ⟨later, after⟩ : ∃ later,
            (session.after operation).table.get? slot = some later := by
          cases operations with
          | nil => exact absurd spent (not_over kept finished)
          | cons next rest =>
              exact lasting { session := session.after operation, operation := next }
                (List.mem_cons_of_mem _ List.mem_cons_self) (not_over kept finished)
        exact mem_toCome_after several before after

/-- A dump of all sets is exact for the slots that last, whatever happens between its steps. It
never fails, and it starts to list sets that are listed last after all others. If it is stepped
until it is over, it has sent the message that ends it, and every slot that is occupied all the
while has been listed exactly once. -/
theorem sweep_exact {request : Message.Request} {opening : Operation σ}
    (reachable : session.Reachable Balanced) (opens : session.Opens opening request dump)
    (all : request.setName? = none)
    (balanced : session.AllBalanced (opening :: operations))
    (unended : .endDump session.dumps.length ∉ operations) :
    (∀ fault, .error fault ∉
      (session.after opening).answers operations session.dumps.length) ∧
    ((session.after opening).headed operations session.dumps.length).Pairwise
      (fun earlier later => earlier.2.type.features.listedLast = true →
        later.2.type.features.listedLast = true) ∧
    (((session.after opening).run operations).Over session.dumps.length →
      .ok (some (Message.Done.encode request.header.sequence request.header.sender 0)) ∈
        (session.after opening).answers operations session.dumps.length ∧
      ∀ slot, (∀ moment ∈ (session.after opening).history operations,
          ¬ moment.session.Over session.dumps.length →
          ∃ entry, moment.session.table.get? slot = some entry) →
        (((session.after opening).headed operations session.dumps.length).map (·.1)).count slot =
          1) := by
  obtain ⟨started, opened⟩ := opens.spec
  obtain ⟨idle, going, sequence, sender, ⟨-, mode, first⟩ | ⟨name, named, -⟩⟩ :=
    Engine.dumpOf_cases started
  · have reachableAfter := reachable.after opening balanced.head
    have here := opens.here
    have several : dump.mode ≠ .one := by simp [mode]
    refine ⟨reachableAfter.sweep_answers here several balanced.tail unended,
      (reachableAfter.sweep_sorted here several balanced.tail unended).2, fun spent => ⟨?_, ?_⟩⟩
    · rw [← sequence, ← sender]
      exact reachableAfter.sweep_done here several balanced.tail unended going spent
    · intro slot lasting
      obtain ⟨entry, occupied⟩ : ∃ entry, session.table.get? slot = some entry := by
        cases operations with
        | nil => exact absurd spent (not_over here going)
        | cons next rest =>
            have first := lasting { session := session.after opening, operation := next }
              List.mem_cons_self (not_over here going)
            rwa [opened] at first
      have toCome : slot ∈ (session.after opening).toCome session.dumps.length := by
        rw [toCome_of_going here going, opened]
        change slot ∈ dump.upcoming session.table
        simp only [Dump.upcoming, mode, idle, first, List.mem_append, Dump.mem_visited]
        cases listedLast : entry.type.features.listedLast <;> simp [occupied, listedLast]
      rw [reachableAfter.sweep_visits here several balanced.tail unended spent lasting,
        if_pos toCome]
  · simp [all] at named

/-- What happens between the messages about the sets: another set is created and exchanged with the
one that has been listed, so that it gets listed too, and the list is emptied. -/
def interfering : List (Operation Empty) :=
  [.stepDump 0, creating (longName 0) "hash:ip", .swap "m" (longName 0).text, .stepDump 0,
    .flush "l", .stepDump 0, .stepDump 0]

theorem sweep_exact_shared :
    let opened := shared.after (.startDump true listing)
    shared.Reachable Balanced ∧ shared.Opens (.startDump true listing) listing sweep ∧
      shared.AllBalanced (.startDump true listing :: interfering) ∧
      (opened.run interfering).Over 0 ∧
      (∀ fault, .error fault ∉ opened.answers interfering 0) ∧
      ((opened.headed interfering 0).map (·.1)).count 1 = 1 := by
  have balanced : shared.AllBalanced (.startDump true listing :: interfering) :=
    .of_few (by simp [interfering, creating, Operation.Direct]) (by decide +kernel)
  have unended : (.endDump 0 : Operation Empty) ∉ interfering := by
    simp [interfering, creating]
  have spent : ((shared.after (.startDump true listing)).run interfering).Over 0 :=
    ⟨{ sweep with mode := .last, slot := 4, finished := true }, by decide +kernel, rfl⟩
  have occupied : ∀ moment ∈ (shared.after (.startDump true listing)).history interfering,
      (moment.session.table.get? 1).isSome := by decide +kernel
  obtain ⟨succeeds, -, visits⟩ :=
    sweep_exact shared_reachable shared_opens rfl balanced unended
  exact ⟨shared_reachable, shared_opens, balanced, spent, succeeds, (visits spent).2 1
    fun moment present _ => Option.isSome_iff_exists.mp (occupied moment present)⟩

end Session

end NamedSets
