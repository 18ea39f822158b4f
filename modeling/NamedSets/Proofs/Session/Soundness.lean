import NamedSets.Proofs.Session.Basic

/-!
# Sound sessions

In a balanced use of an engine the reference count of every set is the number of those who
hold a reference to its slot: lists of sets, dumps in progress and users.
-/

namespace NamedSets.Session

open Table (SameLabels)

variable {σ : Type} {session : Session σ} {slot index : Nat} {dump : Dump} {closed : Prop}

/-- The accounts of the table are sound, every dump in progress stands at a set that its pass
visits, and if the catalog is closed to types from outside, its types are built in. -/
structure Sound (session : Session σ) (closed : Prop := True) : Prop where
  types : closed → session.engine.catalog.Builtin
  table : session.table.Sound session.outside closed
  placed : ∀ dump ∈ session.dumps, dump.Placed session.table

theorem Sound.catalog (sound : session.Sound) : session.engine.catalog.Builtin :=
  sound.types trivial

theorem Sound.fresh (settings : Settings) (loader : Loader) :
    (fresh settings loader : Session σ).Sound closed where
  types _ _ present := nomatch present
  table := .empty settings.capacity
  placed _ present := nomatch present

/-! ## Room for more references -/

theorem Sound.room {taken : Nat} (sound : session.Sound closed) (positive : 0 < taken)
    (bound : ∀ slot, session.references slot + taken < UInt32.size) : session.table.Room := by
  apply sound.table.room
  intro slot
  have below := bound slot
  rw [references_eq] at below
  omega

/-! ## Changes of the engine alone -/

theorem mem_outside_of_dump (present : dump ∈ session.dumps) (started : dump.cursor.isSome) :
    dump.slot ∈ session.outside := by
  apply List.mem_append_left
  apply List.mem_filterMap.mpr
  refine ⟨dump, present, ?_⟩
  obtain ⟨cursor, started⟩ := Option.isSome_iff_exists.mp started
  simp [Dump.heldSlot?, started]

theorem Sound.placed_after {table : Table σ} (sound : session.Sound closed)
    (keeps : session.table.Keeps table) : ∀ dump ∈ session.dumps, dump.Placed table := by
  intro dump present
  apply (sound.placed dump present).of_keeps keeps
  intro entry there started unused
  exact (sound.table.unreferenced there unused).2 (mem_outside_of_dump present started)

theorem Sound.withTable {table : Table σ} (sound : session.Sound closed)
    (later : table.Sound session.outside closed) (keeps : session.table.Keeps table) :
    (session.withTable table).Sound closed where
  types := sound.types
  table := later
  placed := sound.placed_after keeps

theorem Sound.withCatalog {catalog : Catalog σ} (sound : session.Sound closed)
    (builtin : closed → catalog.Builtin) : (session.withCatalog catalog).Sound closed where
  types := builtin
  table := sound.table
  placed := sound.placed

theorem Sound.change [ForeignStorage σ] {engine : Engine σ} {adds : Prop} {swapped : List String}
    (sound : session.Sound closed) (change : session.engine.Change adds swapped engine)
    (bounded : adds → engine.table.Bounded session.outside) :
    ({ session with engine } : Session σ).Sound closed where
  types isClosed := change.builtin (sound.types isClosed)
  table := change.sound sound.table sound.types bounded
  placed := sound.placed_after change.course.reform.keeps

/-! ## References of users -/

theorem Sound.holding (sound : session.Sound closed) (slot : Nat)
    (held : (session.table.hold slot).Sound (slot :: session.outside) closed) :
    (session.holding (session.table.hold slot, some slot)).Sound closed where
  types := sound.types
  table := held.perm List.perm_middle.symm
  placed := sound.placed_after (.of_sameLabels (.hold session.table slot))

theorem Sound.holdByName (sound : session.Sound closed) (room : session.table.Room) (name : String) :
    (session.holding (session.table.holdByName name)).Sound closed := by
  cases found : session.table.find? name with
  | none =>
      simp only [Table.holdByName, found]
      exact sound
  | some slot =>
      simp only [Table.holdByName, found]
      exact sound.holding slot (sound.table.holdByName found room)

theorem Sound.holdById (sound : session.Sound closed) (room : session.table.Room) (slot : Nat) :
    (session.holding (session.table.holdById slot)).Sound closed := by
  cases found : session.table.get? slot with
  | none =>
      simp only [Table.holdById, found]
      exact sound
  | some entry =>
      simp only [Table.holdById, found]
      exact sound.holding slot (sound.table.hold found (room slot entry found))

theorem Sound.release (sound : session.Sound closed) (held : slot ∈ session.holds) :
    ({ session.withTable (session.table.release slot) with
      holds := session.holds.erase slot } : Session σ).Sound closed where
  types := sound.types
  table := by
    have taken : session.outside.Perm
        (slot :: (session.dumps.filterMap Dump.heldSlot? ++ session.holds.erase slot)) :=
      ((List.perm_cons_erase held).append_left _).trans List.perm_middle
    exact (sound.table.perm taken).release
  placed := sound.placed_after (.of_sameLabels (.release session.table slot))

/-! ## References of dumps -/

theorem outside_start (session : Session σ) (idle : dump.cursor = none) :
    ({ session with dumps := session.dumps ++ [dump] } : Session σ).outside =
      session.outside := by
  simp [outside, Dump.heldSlot?, idle]

theorem Sound.start (sound : session.Sound closed) (idle : dump.cursor = none) :
    ({ session with dumps := session.dumps ++ [dump] } : Session σ).Sound closed where
  types := sound.types
  table := by
    rw [outside_start session idle]
    exact sound.table
  placed := by
    intro other present
    rcases List.mem_append.mp present with before | last
    · exact sound.placed other before
    · rw [List.mem_singleton.mp last]
      exact .of_cursor_eq_none idle

def others (session : Session σ) (index : Nat) : List Nat :=
  (session.dumps.eraseIdx index).filterMap Dump.heldSlot? ++ session.holds

theorem perm_outside_set (inside : index < session.dumps.length) (dump : Dump) :
    ((session.dumps.set index dump).filterMap Dump.heldSlot? ++ session.holds).Perm
      (dump.heldSlot?.toList ++ session.others index) := by
  have moved := (List.set_perm_cons_eraseIdx inside dump).filterMap Dump.heldSlot?
  have front : (dump :: session.dumps.eraseIdx index).filterMap Dump.heldSlot? =
      dump.heldSlot?.toList ++ (session.dumps.eraseIdx index).filterMap Dump.heldSlot? := by
    cases held : dump.heldSlot? <;> simp [held]
  rw [front] at moved
  rw [others, ← List.append_assoc]
  exact moved.append_right session.holds

/-- A dump may be replaced by another one if the references of the others stay the same. -/
theorem Sound.replaceDump {table : Table σ} {later : Dump} (sound : session.Sound closed)
    (found : session.dumps[index]? = some dump)
    (step : session.table.Sound (dump.heldSlot?.toList ++ session.others index) closed →
      table.Sound (later.heldSlot?.toList ++ session.others index) closed ∧ later.Placed table)
    (same : SameLabels session.table table) :
    ({ session.withTable table with
      dumps := session.dumps.set index later } : Session σ).Sound closed := by
  obtain ⟨inside, there⟩ := List.getElem?_eq_some_iff.mp found
  have before := perm_outside_set inside dump
  rw [← there, List.set_getElem_self, there] at before
  obtain ⟨accounts, placed⟩ := step (sound.table.perm before)
  refine ⟨sound.types, accounts.perm (perm_outside_set inside later).symm, ?_⟩
  intro other present
  rcases List.mem_or_eq_of_mem_set present with earlier | new
  · exact (sound.placed other earlier).of_sameLabels same
  · rw [new]
    exact placed

/-! ## Every operation -/

section Operations

variable [ForeignStorage σ]

theorem outside_after_request (session : Session σ) (privileged : Bool)
    (request : Message.Request) :
    (session.after (.request privileged request)).outside = session.outside := by
  simp only [Session.after]
  split
  · rfl
  · rename_i answered
    have idle := (Engine.dumpOf_cases
      (Engine.handle_dumpOf (congrArg (·.2.2) answered)).2.1).1
    exact outside_start _ idle

theorem Sound.request (sound : session.Sound closed) (privileged : Bool) (request : Message.Request)
    (bounded : request.command = .add →
      (session.engine.handle privileged request).1.table.Bounded session.outside) :
    (session.after (.request privileged request)).Sound closed := by
  have changed := sound.change (session.engine.handle_change privileged request) bounded
  simp only [after]
  split
  · rename_i answered
    rw [answered] at changed
    exact changed
  · rename_i engine echoed dump answered
    rw [answered] at changed
    have idle : dump.cursor = none := (Engine.dumpOf_cases
      (Engine.handle_dumpOf (congrArg (·.2.2) answered)).2.1).1
    exact changed.start idle

theorem Sound.startDump (sound : session.Sound closed) (privileged : Bool)
    (request : Message.Request) : (session.after (.startDump privileged request)).Sound closed := by
  simp only [after]
  split
  · rename_i dump started
    exact sound.start (Engine.dumpOf_cases (Engine.startDump_dumpOf started)).1
  · exact sound

theorem Sound.stepDump (sound : session.Sound closed) (room : session.table.Room) (index : Nat) :
    (session.after (.stepDump index)).Sound closed := by
  simp only [after]
  split
  · exact sound
  · rename_i dump found
    have placed := sound.placed dump (List.mem_of_getElem? found)
    exact sound.replaceDump found (fun before => dump.step_sound _ before placed room)
      (.of_edits (dump.edits_step session.table _ : Table.Edits .add _ _))

theorem Sound.endDump (sound : session.Sound closed) (index : Nat) :
    (session.after (.endDump index)).Sound closed := by
  simp only [after]
  split
  · exact sound
  · rename_i dump found
    exact sound.replaceDump found dump.release_sound
      (.of_edits (dump.edits_release session.table : Table.Edits .add _ _))

/-- An operation of a fair use keeps a session sound, and the catalog closed if it registers
no type from outside. -/
theorem Sound.after_fair (sound : session.Sound closed) {operation : Operation σ}
    (fair : session.Fair operation)
    (builtin : closed → ∀ type, operation = .register type → type.Builtin) :
    (session.after operation).Sound closed := by
  have room (takes : 0 < operation.taken) : session.table.Room := sound.room takes fair.before
  have keeps := (session.after_reform operation).keeps
  cases operation with
  | request privileged request =>
      apply sound.request
      intro adds slot
      have below := fair.after privileged request rfl slot
      have taken : (Operation.request privileged request : Operation σ).taken = 1 := if_pos adds
      rw [references_eq, outside_after_request, taken, Session.table, engine_after_request]
        at below
      exact below
  | create creation =>
      have change : session.engine.Change False [] (session.engine.create creation).1 :=
        session.engine.create_change creation
      exact sound.change change False.elim
  | destroy name => exact sound.withTable (sound.table.destroy name) keeps
  | destroyAll => exact sound.withTable sound.table.destroyAll keeps
  | flush name => exact sound.withTable (sound.table.flush name) keeps
  | flushAll => exact sound.withTable sound.table.flushAll keeps
  | rename name newName => exact sound.withTable (sound.table.renameSet name newName) keeps
  | swap name second => exact sound.withTable (sound.table.swap name second) keeps
  | addElement slot data =>
      exact sound.withTable (sound.table.addElement (room Nat.one_pos) slot data) keeps
  | deleteElement slot data => exact sound.withTable (sound.table.deleteElement slot data) keeps
  | testElement slot data => exact sound.withTable (sound.table.testElement slot data) keeps
  | resize slot again => exact sound.withTable (sound.table.resize slot again) keeps
  | testPacket slot query => exact sound.withTable (sound.table.testPacket slot query) keeps
  | changePacket slot change query =>
      exact sound.withTable (sound.table.changePacket slot change query) keeps
  | holdByName name => exact sound.holdByName (room Nat.one_pos) name
  | holdById slot => exact sound.holdById (room Nat.one_pos) slot
  | release slot => exact sound.release (fair.released slot rfl)
  | startDump privileged request => exact sound.startDump privileged request
  | stepDump index => exact sound.stepDump (room Nat.one_pos) index
  | endDump index => exact sound.endDump index
  | register type =>
      simp only [Session.after]
      split
      · rename_i accepted
        exact sound.withCatalog fun isClosed =>
          (sound.types isClosed).register (builtin isClosed type rfl) accepted
      · exact sound
  | unregister name family revision =>
      simp only [Session.after]
      split
      · rename_i removed
        exact sound.withCatalog fun isClosed => (sound.types isClosed).unregister removed
      · exact sound
  | findType name family revision =>
      exact sound.withCatalog fun isClosed =>
        ((sound.types isClosed).lookupOrLoad name family revision).1
  | findRevisions name family =>
      exact sound.withCatalog fun isClosed =>
        (sound.types isClosed).revisionRangeOrLoad name family

/-- An operation of a balanced use keeps a session sound. -/
theorem Sound.after (sound : session.Sound) {operation : Operation σ}
    (balanced : session.Balanced operation) : (session.after operation).Sound :=
  sound.after_fair balanced.fair fun _ => balanced.builtin

theorem Reachable.sound (reachable : session.Reachable Balanced) : session.Sound :=
  reachable.induction (fun session => session.Sound) Sound.fresh fun _ _ before balanced =>
    before.after balanced

omit [ForeignStorage σ] in
theorem Sound.counted (sound : session.Sound closed) (slot : Nat) :
    match session.table.get? slot with
    | some entry => entry.references.toNat = session.references slot
    | none => session.references slot = 0 := by
  rw [references_eq]
  cases found : session.table.get? slot with
  | some entry => exact sound.table.counted_of_get found
  | none =>
      obtain ⟨unlisted, unheld⟩ := sound.table.vacant found
      simp only [unlisted, List.count_eq_zero.mpr unheld]

/-- Whatever types come from outside, the accounts are sound as long as the use is fair. -/
theorem Reachable.sound_fair (reachable : session.Reachable Fair) : session.Sound False :=
  reachable.induction (fun session => session.Sound False) Sound.fresh fun _ _ before fair =>
    before.after_fair fair False.elim

/-- The reference count of a set is the number of those who hold a reference to its slot,
and nobody holds a reference to an empty slot. -/
theorem references_counted (reachable : session.Reachable Balanced) (slot : Nat) :
    match session.table.get? slot with
    | some entry =>
        entry.references.toNat =
          session.table.referrers slot + session.dumpsAt slot + session.holds.count slot
    | none =>
        session.table.referrers slot = 0 ∧ session.dumpsAt slot = 0 ∧
          session.holds.count slot = 0 := by
  have counted := reachable.sound.counted slot
  cases found : session.table.get? slot with
  | some entry =>
      rw [found] at counted
      exact counted
  | none =>
      simpa [found, references, and_assoc] using counted

end Operations

/-! ## A set that is a member of a list and held by a user -/

def memberName : SetName where
  text := "m"
  nonempty := by decide
  short := by decide
  noNul := by decide

def listName : SetName where
  text := "l"
  nonempty := by decide
  short := by decide
  noNul := by decide

def creating (name : SetName) (typeName : String) : Operation Empty :=
  .create { name, typeName, family := .ipv4, revision := 0, data := [], allowExisting := false }

def created : Session Empty :=
  ((fresh { maxSets := 4 } .builtin).after (creating memberName "hash:ip")).after
    (creating listName "list:set")

def shared : Session Empty :=
  (created.after (.addElement 1 [.name memberName])).after (.holdById 0)

theorem created_reachable : created.Reachable Balanced := by
  have initial : (fresh { maxSets := 4 } .builtin : Session Empty).Reachable Balanced :=
    .fresh Balanced { maxSets := 4 } .builtin
  have one := initial.after (creating memberName "hash:ip")
    (.of_few trivial (by decide +kernel))
  exact one.after (creating listName "list:set")
    (.of_few trivial (by decide +kernel))

theorem shared_reachable : shared.Reachable Balanced := by
  have listed := created_reachable.after (.addElement 1 [.name memberName])
    (.of_few trivial (by decide +kernel))
  exact listed.after (.holdById 0) (.of_few trivial (by decide +kernel))

theorem references_counted_shared :
    shared.Reachable Balanced ∧ ∃ entry, shared.table.get? 0 = some entry ∧
      entry.references.toNat = 2 ∧ shared.table.referrers 0 = 1 ∧ shared.dumpsAt 0 = 0 ∧
        shared.holds.count 0 = 1 := by
  refine ⟨shared_reachable, ?_⟩
  have counted := references_counted shared_reachable 0
  have lists : shared.table.referrers 0 = 1 := by decide +kernel
  have dumps : shared.dumpsAt 0 = 0 := by decide +kernel
  have holds : shared.holds.count 0 = 1 := by decide +kernel
  cases found : shared.table.get? 0 with
  | none => simp [found, lists] at counted
  | some entry =>
      rw [found, lists, dumps, holds] at counted
      exact ⟨entry, rfl, counted, lists, dumps, holds⟩

end NamedSets.Session
