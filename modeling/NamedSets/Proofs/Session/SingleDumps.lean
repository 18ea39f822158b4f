import NamedSets.Proofs.Dump.Outcomes
import NamedSets.Proofs.Session.Recreation

namespace NamedSets

open Table (SameLabels)

variable {σ : Type} {dump found later : Dump} {table after : Table σ} {entry : Entry σ}
  {name? : Option SetName} {bytes : Bytes}

namespace Dump

def Tells (dump : Dump) (name? : Option SetName) (bytes : Bytes) : Prop :=
  bytes = Message.Done.encode dump.sequence dump.sender 0 ∨
    ∃ name, name? = some name ∧ dump.Names name bytes

theorem Tells.congr (sequence : later.sequence = dump.sequence)
    (sender : later.sender = dump.sender) (tells : later.Tells name? bytes) :
    dump.Tells name? bytes := by
  obtain ended | ⟨name, same, names⟩ := tells
  · rw [sequence, sender] at ended
    exact .inl ended
  · exact .inr ⟨name, same, names.congr sequence sender⟩

/-- What a dump has still to list, if anything, is the set in its slot, which has some name. -/
def Aims (dump : Dump) (table : Table σ) (name? : Option SetName) : Prop :=
  dump.finished = true ∨
    dump.mode = .one ∧ (table.capacity ≤ dump.slot ∨ table.name? dump.slot = name?)

/-- The dump is also in the middle of that set. -/
def Clings (dump : Dump) (table : Table σ) (name? : Option SetName) : Prop :=
  dump.finished = true ∨
    dump.mode = .one ∧
      (table.capacity ≤ dump.slot ∨ dump.cursor.isSome ∧ table.name? dump.slot = name?)

theorem Clings.aims (clings : dump.Clings table name?) : dump.Aims table name? :=
  clings.imp_right fun ⟨mode, stands⟩ => ⟨mode, stands.imp_right And.right⟩

theorem seek_single (mode : dump.mode = .one) (sought : dump.seek table = .ok (found, some entry)) :
    found = dump ∧ dump.slot < table.capacity ∧ table.get? dump.slot = some entry := by
  cases there : table.get? dump.slot with
  | none =>
      simp only [seek, mode, there] at sought
      split at sought <;> cases sought
  | some other =>
      rw [seek_one mode there] at sought
      cases sought
      exact ⟨rfl, Table.lt_capacity_of_get there, rfl⟩

/-- A step tells what the dump aims at, and afterwards the dump clings to it. -/
theorem Outcome.clings [ForeignStorage σ] {result : Except Fault (Option Bytes)}
    (outcome : Outcome dump table later result) (aims : dump.Aims table name?)
    (same : SameLabels table after) :
    later.Clings after name? ∧ ∀ bytes, result = .ok (some bytes) → dump.Tells name? bytes := by
  cases outcome with
  | spent finished => exact ⟨.inl finished, nofun⟩
  | failed => exact ⟨.inl rfl, nofun⟩
  | ended =>
      refine ⟨.inl rfl, ?_⟩
      rintro _ ⟨⟩
      exact .inl rfl
  | told _ later entry bytes going sought names goes =>
      obtain finished | ⟨mode, stands⟩ := aims
      · simp [going] at finished
      · obtain ⟨rfl, inside, there⟩ := seek_single mode sought
        obtain past | named := stands
        · exact absurd inside (Nat.not_lt.mpr past)
        · have shown : name? = some entry.name := by rw [← named, Table.name?, there, Option.map_some]
          constructor
          · obtain ⟨next, rfl⟩ | rfl := goes
            · exact .inr ⟨mode, .inr ⟨rfl, (same.name _).trans named⟩⟩
            · refine .inr ⟨mode, .inl ?_⟩
              rw [leave, if_pos mode, same.capacity]
          · rintro _ ⟨⟩
            exact .inr ⟨entry.name, shown, names⟩

end Dump

namespace Session

variable [ForeignStorage σ] {session start : Session σ} {operation opening : Operation σ}
  {operations before rest : List (Operation σ)} {index : Nat} {closed : Prop}

def AllFair (session : Session σ) (operations : List (Operation σ)) : Prop :=
  ∀ moment ∈ session.history operations, moment.session.Fair moment.operation

theorem AllFair.head (fair : session.AllFair (operation :: operations)) :
    session.Fair operation := fair _ List.mem_cons_self

theorem AllFair.tail (fair : session.AllFair (operation :: operations)) :
    (session.after operation).AllFair operations :=
  fun moment present => fair moment (List.mem_cons_of_mem _ present)

theorem AllFair.append (fair : session.AllFair (before ++ rest)) :
    session.AllFair before ∧ (session.run before).AllFair rest := by
  induction before generalizing session with
  | nil => exact ⟨fun _ present => (List.not_mem_nil present).elim, fair⟩
  | cons operation before ih =>
      obtain ⟨others, remaining⟩ := ih fair.tail
      exact ⟨List.forall_mem_cons.mpr ⟨fair.head, others⟩, remaining⟩

theorem Sound.run (sound : session.Sound False) (fair : session.AllFair operations) :
    (session.run operations).Sound False := by
  induction operations generalizing session with
  | nil => exact sound
  | cons operation rest ih => exact ih (sound.after_fair fair.head False.elim) fair.tail

/-! ## Steps of others and of the dump itself -/

theorem dump_run (found : session.dumps[index]? = some dump)
    (unstepped : .stepDump index ∉ operations) (unended : .endDump index ∉ operations) :
    (session.run operations).dumps[index]? = some dump := by
  induction operations generalizing session with
  | nil => exact found
  | cons operation rest ih =>
      simp only [List.mem_cons, not_or] at unstepped unended
      obtain ⟨step, others⟩ := unstepped
      obtain ⟨ending, remaining⟩ := unended
      exact ih (dump_after found (Ne.symm step) (Ne.symm ending)) others remaining

/-- Nobody else takes the set from a dump that is in the middle of it. -/
theorem Sound.clings_after (sound : session.Sound closed)
    (here : session.dumps[index]? = some dump) (clings : dump.Clings session.table name?)
    (operation : Operation σ) : dump.Clings (session.after operation).table name? := by
  have reform := session.after_reform operation
  refine clings.imp_right fun ⟨mode, stands⟩ => ⟨mode, ?_⟩
  rw [reform.capacity]
  refine stands.imp_right fun ⟨started, named⟩ => ⟨started, ?_⟩
  obtain ⟨entry, there, used⟩ :=
    sound.table.references_ne_zero (mem_outside_of_dump (List.mem_of_getElem? here) started)
  obtain ⟨later, present, sameName, -⟩ := reform.keeps dump.slot entry there used
  rw [← named, Table.name?, Table.name?, present, there, Option.map_some, Option.map_some, sameName]

variable [ForeignStorage.Contained σ]

theorem step_clings (here : session.dumps[index]? = some dump)
    (aims : dump.Aims session.table name?) :
    ∃ later result, (session.after (.stepDump index)).dumps[index]? = some later ∧
      later.sequence = dump.sequence ∧ later.sender = dump.sender ∧
      later.Clings (session.after (.stepDump index)).table name? ∧
      Moment.answer? { session, operation := .stepDump index } index = some result ∧
      ∀ bytes, result = .ok (some bytes) → dump.Tells name? bytes := by
  obtain ⟨engine, dumped, answer⟩ := step_after here
  have outcome := dump.step_outcome session.table session.engine.settings.messageSize
  have edits : Table.Edits .add session.table (session.after (.stepDump index)).table := by
    rw [Session.table, Session.table, engine]
    exact dump.edits_step _ _
  obtain ⟨clings, tells⟩ := outcome.clings aims (.of_edits edits)
  exact ⟨_, _, dumped, outcome.addressed.1, outcome.addressed.2, clings, answer, tells⟩

/-- A dump that clings to a set tells of nothing else. The induction is on the operations: what
others do leaves the set in its place, as the dump holds a reference to it. -/
theorem Sound.tells (sound : session.Sound False) (here : session.dumps[index]? = some dump)
    (clings : dump.Clings session.table name?) (fair : session.AllFair operations)
    (unended : .endDump index ∉ operations)
    (told : .ok (some bytes) ∈ session.answers operations index) : dump.Tells name? bytes := by
  induction operations generalizing session dump with
  | nil => exact (List.not_mem_nil told).elim
  | cons operation rest ih =>
      simp only [List.mem_cons, not_or] at unended
      obtain ⟨ending, remaining⟩ := unended
      have soundAfter := sound.after_fair fair.head False.elim
      by_cases step : operation = .stepDump index
      · subst step
        obtain ⟨later, result, dumped, sequence, sender, still, answer, tells⟩ :=
          step_clings here clings.aims
        rw [answers_cons, answer, Option.toList_some, List.singleton_append] at told
        obtain first | others := List.mem_cons.mp told
        · exact tells bytes first.symm
        · exact (ih soundAfter dumped still fair.tail remaining others).congr sequence sender
      · rw [answers_other step] at told
        exact ih soundAfter (dump_after here step (Ne.symm ending))
          (sound.clings_after here clings operation) fair.tail remaining told

/-! ## What a dump of a single set reports -/

omit [ForeignStorage.Contained σ] in
theorem Opens.single {request : Message.Request} {name : SetName}
    (opens : start.Opens opening request dump) (named : request.setName? = some name) :
    dump.mode = .one ∧ ∃ entry, start.table.get? dump.slot = some entry ∧ entry.name = name := by
  obtain ⟨-, -, -, -, ⟨unnamed, -⟩ | ⟨other, same, mode, first⟩⟩ :=
    Engine.dumpOf_cases opens.spec.1
  · cases unnamed.symm.trans named
  · cases same.symm.trans named
    obtain ⟨entry, -, there, text⟩ := Table.lookup_of_find first
    exact ⟨mode, entry, there, SetName.eq_of_text text⟩

/-- A dump of the set of a name starts with the slot of that set. Its messages name the set which
is in the slot when the first of them is asked for, and this is the set of the name unless somebody
has removed or renamed it since. -/
theorem single_dump_reports {request : Message.Request} {name : SetName}
    (reachable : start.Reachable Fair) (opens : start.Opens opening request dump)
    (named : request.setName? = some name)
    (fair : start.AllFair (opening :: (before ++ .stepDump start.dumps.length :: rest)))
    (unstepped : .stepDump start.dumps.length ∉ before)
    (unended : .endDump start.dumps.length ∉ before ++ rest) :
    let index := start.dumps.length
    let reached := (start.after opening).run before
    start.table.name? dump.slot = some name ∧
      ((∀ operation ∈ before, operation.Spares name.text) →
        reached.table.name? dump.slot = some name) ∧
      ∀ bytes, .ok (some bytes) ∈ reached.answers (.stepDump index :: rest) index →
        dump.Tells (reached.table.name? dump.slot) bytes := by
  intro index reached
  obtain ⟨mode, entry, there, rfl⟩ := opens.single named
  obtain ⟨fairBefore, fairReached⟩ := fair.tail.append
  have sound : reached.Sound False :=
    (reachable.sound_fair.after_fair fair.head False.elim).run fairBefore
  have here : reached.dumps[index]? = some dump :=
    dump_run opens.here unstepped fun among => unended (List.mem_append_left rest among)
  refine ⟨congrArg (Option.map _) there, fun spared => ?_, fun bytes told => ?_⟩
  · have placed : (start.after opening).table.get? dump.slot = some entry := by
      rw [opens.spec.2]
      exact there
    obtain ⟨later, present, continues⟩ := continues_run placed spared
    rw [Table.name?, present, Option.map_some, continues.name]
  · obtain ⟨later, result, dumped, sequence, sender, clings, answer, tells⟩ :=
      step_clings here (.inr ⟨mode, .inr rfl⟩)
    rw [answers_cons, answer, Option.toList_some, List.singleton_append] at told
    obtain now | others := List.mem_cons.mp told
    · exact tells bytes now.symm
    · exact (Sound.tells (sound.after_fair fairReached.head False.elim) dumped clings
        fairReached.tail (fun among => unended (List.mem_append_right before among))
        others).congr sequence sender

/-! ## A listing of the set of addresses -/

def otherName : SetName where
  text := "n"
  nonempty := by decide
  short := by decide
  noNul := by decide

def asked : Message.Request :=
  .compose .list 0x301 5 9 [.protocol protocolVersion, .setName memberName]

def sole : Dump where
  mode := .one
  slot := 0
  cursor := none
  sequence := 5
  sender := 9
  finished := false

theorem created_opens : created.Opens (.startDump true asked) asked sole where
  asks := .startDump true
  opened := by decide +kernel

/-- A set that takes the slot when the listing is done is not told. -/
theorem single_dump_reports_begun :
    let before : List (Operation Empty) := [.addElement 0 [.ip (.v4 10)]]
    let rest := [.destroy "m", creating otherName "hash:ip", .stepDump 0]
    let reached := (created.after (.startDump true asked)).run before
    created.Reachable Fair ∧ created.Opens (.startDump true asked) asked sole ∧
      asked.setName? = some memberName ∧
      created.AllFair (.startDump true asked :: (before ++ .stepDump 0 :: rest)) ∧
      .stepDump 0 ∉ before ∧ .endDump 0 ∉ before ++ rest ∧
      (reached.pages (.stepDump 0 :: rest) 0).map (·.name) = [memberName] ∧
      (reached.run (.stepDump 0 :: rest)).table.name? 0 = some otherName ∧
      ∀ bytes, .ok (some bytes) ∈ reached.answers (.stepDump 0 :: rest) 0 →
        sole.Tells (some memberName) bytes := by
  intro before rest reached
  have reachable : created.Reachable Fair :=
    created_reachable.mono fun _ _ balanced => balanced.fair
  have named : asked.setName? = some memberName := rfl
  have balanced : created.AllBalanced (.startDump true asked :: (before ++ .stepDump 0 :: rest)) :=
    .of_few (by simp [before, rest, creating, Operation.Direct]) (by decide +kernel)
  have fair : created.AllFair (.startDump true asked :: (before ++ .stepDump 0 :: rest)) :=
    fun moment present => (balanced moment present).fair
  have unstepped : .stepDump 0 ∉ before := by simp [before]
  have unended : .endDump 0 ∉ before ++ rest := by simp [before, rest, creating]
  obtain ⟨-, stays, tells⟩ :=
    single_dump_reports reachable created_opens named fair unstepped unended
  have spared : reached.table.name? sole.slot = some memberName :=
    stays (by simp [before, Operation.Spares])
  rw [spared] at tells
  exact ⟨reachable, created_opens, named, fair, unstepped, unended, by decide +kernel,
    by decide +kernel, tells⟩

/-- A set that takes the slot before the first message is told in place of the one that was
asked for. -/
theorem other_set_told :
    let others := [.destroy "m", creating otherName "hash:ip", .stepDump 0]
    created.Reachable Balanced ∧ created.Opens (.startDump true asked) asked sole ∧
      Message.Segment.readAll asked.raw = .ok [.request asked] ∧
      asked.setName? = some memberName ∧
      created.AllBalanced (.startDump true asked :: others) ∧
      ((created.after (.startDump true asked)).pages others 0).map (·.name) = [otherName] := by
  intro others
  refine ⟨created_reachable, created_opens, by decide +kernel, rfl, ?_, by decide +kernel⟩
  exact .of_few (by simp [others, creating, Operation.Direct]) (by decide +kernel)

end Session

end NamedSets
