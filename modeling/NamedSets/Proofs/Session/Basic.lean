import Mathlib.Logic.Relation
import NamedSets.Proofs.Dump
import NamedSets.Proofs.Engine.Outcomes

/-!
# Sessions

An engine in use: whoever has access to it issues operations one after the other, in any
order. A session remembers the dumps that were started and the references that users hold,
which the engine itself knows only as counts.
-/

namespace NamedSets

inductive Operation (σ : Type) where
  | request (privileged : Bool) (request : Message.Request)
  -- Whole sets
  | create (creation : Engine.Creation)
  | destroy (name : String)
  | destroyAll
  | flush (name : String)
  | flushAll
  | rename (name : String) (newName : SetName)
  | swap (name second : String)
  -- Elements of the set in a slot
  | addElement (slot : Nat) (data : List Datum)
  | deleteElement (slot : Nat) (data : List Datum)
  | testElement (slot : Nat) (data : List Datum)
  | resize (slot : Nat) (again : Bool)
  -- The packet path
  | testPacket (slot : Nat) (query : Query)
  | changePacket (slot : Nat) (change : PacketChange) (query : Query)
  -- References that users hold
  | holdByName (name : String)
  | holdById (slot : Nat)
  | release (slot : Nat)
  -- Dumps, by their number
  | startDump (privileged : Bool) (request : Message.Request)
  | stepDump (index : Nat)
  | endDump (index : Nat)
  -- Set types
  | register (type : SetType σ)
  | unregister (name : String) (family : Family) (revision : UInt8)
  | findType (name : String) (family : Family) (revision : UInt8)
  | findRevisions (name : String) (family : Family)

/-- The references to a slot that an operation takes at most before it gives one back. An
add takes a reference before the list accepts the member, a dump before its message is
written. -/
def Operation.taken {σ : Type} : Operation σ → Nat
  | .request _ asked => if asked.command = .add then 1 else 0
  | .addElement _ _ => 1
  | .holdByName _ => 1
  | .holdById _ => 1
  | .stepDump _ => 1
  | _ => 0

theorem Operation.taken_le_one {σ : Type} (operation : Operation σ) : operation.taken ≤ 1 := by
  unfold taken
  split
  · split <;> decide
  all_goals decide

/-- Nothing but the number of references decides whether the use of the operation is
balanced. -/
def Operation.Direct {σ : Type} : Operation σ → Prop
  | .request _ _ | .release _ | .register _ => False
  | _ => True

def Operation.swapped {σ : Type} : Operation σ → List String
  | .request _ asked => Engine.swappedBy asked
  | .swap name second => [name, second]
  | _ => []

def Operation.Ordinary {σ : Type} : Operation σ → Prop
  | .request _ _ | .create _ | .destroy _ | .destroyAll | .rename _ _ | .swap _ _ => False
  | _ => True

structure Session (σ : Type) where
  engine : Engine σ
  dumps : List Dump
  /-- The slots that users hold references to, once for each reference. -/
  holds : List Nat

namespace Session

variable {σ : Type}

def fresh (settings : Settings) (loader : Loader) : Session σ where
  engine := .new settings loader
  dumps := []
  holds := []

def table (session : Session σ) : Table σ := session.engine.table

def withTable (session : Session σ) (table : Table σ) : Session σ :=
  { session with engine := { session.engine with table } }

def withCatalog (session : Session σ) (catalog : Catalog σ) : Session σ :=
  { session with engine := { session.engine with catalog } }

def holding (session : Session σ) (outcome : Table σ × Option Nat) : Session σ :=
  { session.withTable outcome.1 with holds := outcome.2.toList ++ session.holds }

def after [ForeignStorage σ] (session : Session σ) : Operation σ → Session σ
  | .request privileged request =>
      match session.engine.handle privileged request with
      | (engine, _, .messages _) => { session with engine }
      | (engine, _, .dump dump) => { session with engine, dumps := session.dumps ++ [dump] }
  | .create creation => { session with engine := (session.engine.create creation).1 }
  | .destroy name => session.withTable (session.table.destroy name).1
  | .destroyAll => session.withTable session.table.destroyAll.1
  | .flush name => session.withTable (session.table.flush name).1
  | .flushAll => session.withTable session.table.flushAll
  | .rename name newName => session.withTable (session.table.rename name newName).1
  | .swap name second => session.withTable (session.table.swap name second).1
  | .addElement slot data => session.withTable (session.table.addElement slot data).1
  | .deleteElement slot data => session.withTable (session.table.deleteElement slot data).1
  | .testElement slot data => session.withTable (session.table.testElement slot data).1
  | .resize slot again => session.withTable (session.table.resize slot again).1
  | .testPacket slot query => session.withTable (session.table.testPacket slot query).1
  | .changePacket slot change query =>
      session.withTable (session.table.changePacket slot change query).1
  | .holdByName name => session.holding (session.table.holdByName name)
  | .holdById slot => session.holding (session.table.holdById slot)
  | .release slot =>
      { session.withTable (session.table.release slot) with holds := session.holds.erase slot }
  | .startDump privileged request =>
      match session.engine.startDump privileged request with
      | .ok dump => { session with dumps := session.dumps ++ [dump] }
      | .error _ => session
  | .stepDump index =>
      match session.dumps[index]? with
      | none => session
      | some dump =>
          let (engine, dump, _) := session.engine.stepDump dump
          { session with engine, dumps := session.dumps.set index dump }
  | .endDump index =>
      match session.dumps[index]? with
      | none => session
      | some dump =>
          let (engine, dump) := session.engine.endDump dump
          { session with engine, dumps := session.dumps.set index dump }
  | .register type =>
      match session.engine.catalog.register type with
      | .ok catalog => session.withCatalog catalog
      | .error _ => session
  | .unregister name family revision =>
      match session.engine.catalog.unregister name family revision with
      | .ok (catalog, _) => session.withCatalog catalog
      | .error _ => session
  | .findType name family revision =>
      session.withCatalog (session.engine.catalog.lookupOrLoad name family revision).1
  | .findRevisions name family =>
      session.withCatalog (session.engine.catalog.revisionRangeOrLoad name family).1

/-! ## What an operation does to the sets -/

section Effects

variable [ForeignStorage σ]

theorem engine_after_request (session : Session σ) (privileged : Bool)
    (request : Message.Request) : (session.after (.request privileged request)).engine =
      (session.engine.handle privileged request).1 := by
  simp only [after]
  split <;> simp_all

/-- An operation that is not about whole sets edits elements and references. -/
theorem after_edits (session : Session σ) {operation : Operation σ}
    (ordinary : operation.Ordinary) :
    ∃ kind, Table.Edits kind session.table (session.after operation).table := by
  cases operation with
  | request privileged request | create creation | destroy name | destroyAll | rename name newName
  | swap name second => exact ordinary.elim
  | flush name => exact ⟨.delete, Table.edits_flush session.table name⟩
  | flushAll => exact ⟨.delete, Table.edits_flushAll session.table⟩
  | addElement slot data => exact ⟨.add, Table.edits_addElement session.table slot data⟩
  | deleteElement slot data => exact ⟨.delete, Table.edits_deleteElement session.table slot data⟩
  | testElement slot data => exact ⟨.add, Table.edits_testElement session.table slot data⟩
  | resize slot again => exact ⟨.add, Table.edits_resize session.table slot again⟩
  | testPacket slot query => exact ⟨.add, Table.edits_testPacket session.table slot query⟩
  | changePacket slot change query =>
      exact ⟨change, Table.edits_changePacket session.table slot query⟩
  | holdByName name => exact ⟨.add, Table.edits_holdByName session.table name⟩
  | holdById slot => exact ⟨.add, Table.edits_holdById session.table slot⟩
  | release slot => exact ⟨.add, .release session.table slot⟩
  | startDump privileged request =>
      simp only [after]
      split <;> exact ⟨.add, .refl session.table⟩
  | stepDump index =>
      simp only [after]
      split
      · exact ⟨.add, .refl session.table⟩
      · exact ⟨.add, Dump.edits_step _ session.table _⟩
  | endDump index =>
      simp only [after]
      split
      · exact ⟨.add, .refl session.table⟩
      · exact ⟨.add, Dump.edits_release _ session.table⟩
  | register type =>
      simp only [after]
      split <;> exact ⟨.add, .refl session.table⟩
  | unregister name family revision =>
      simp only [after]
      split <;> exact ⟨.add, .refl session.table⟩
  | findType name family revision => exact ⟨.add, .refl session.table⟩
  | findRevisions name family => exact ⟨.add, .refl session.table⟩

/-- What the operation does to the table. -/
theorem after_course (session : Session σ) (operation : Operation σ) :
    Table.Course operation.swapped session.table (session.after operation).table := by
  by_cases ordinary : operation.Ordinary
  · obtain ⟨kind, edits⟩ := session.after_edits ordinary
    exact .edits kind edits
  · cases operation with
    | request privileged request =>
        have course := (session.engine.handle_change privileged request).course
        rw [← engine_after_request] at course
        exact course
    | create creation =>
        have change : session.engine.Change False [] (session.engine.create creation).1 :=
          session.engine.create_change creation
        exact change.course
    | destroy name => exact .destroy name
    | destroyAll => exact .destroyAll
    | rename name newName => exact .rename name newName
    | swap name second =>
        exact .swap name second List.mem_cons_self (List.mem_cons_of_mem _ List.mem_cons_self)
    | _ => exact absurd trivial ordinary

/-- What an operation does to the catalog. -/
theorem catalog_preserves {kept : Catalog σ → Prop} {session : Session σ} {operation : Operation σ}
    (durable : Catalog.Durable kept)
    (registers : ∀ type registered, operation = .register type →
      session.engine.catalog.register type = .ok registered → kept registered)
    (before : kept session.engine.catalog) : kept (session.after operation).engine.catalog := by
  cases operation with
  | request privileged request =>
      rw [engine_after_request]
      exact (session.engine.handle_change privileged request).catalog_preserves durable before
  | create creation =>
      have change : session.engine.Change False [] (session.engine.create creation).1 :=
        session.engine.create_change creation
      exact change.catalog_preserves durable before
  | startDump privileged request =>
      simp only [after]
      split <;> exact before
  | stepDump index =>
      simp only [after]
      split <;> exact before
  | endDump index =>
      simp only [after]
      split <;> exact before
  | register type =>
      simp only [after]
      split
      · rename_i registered accepted
        exact registers type registered rfl accepted
      · exact before
  | unregister name family revision =>
      simp only [after]
      split
      · rename_i removed
        exact durable.unregister before removed
      · exact before
  | findType name family revision => exact durable.lookupOrLoad name family revision before
  | findRevisions name family => exact durable.revisionRangeOrLoad name family before
  | _ => exact before

/-- Every operation either leaves the labels of all sets alone or is about whole sets. -/
theorem after_reform (session : Session σ) (operation : Operation σ) :
    session.table.Reform (session.after operation).table :=
  (session.after_course operation).reform

end Effects

/-! ## Who holds references -/

def dumpsAt (session : Session σ) (slot : Nat) : Nat :=
  session.dumps.countP fun dump => dump.cursor.isSome && dump.slot == slot

/-- The number of references to a slot: one for every list of sets that it is a member of,
for every dump that is listing it, and for every reference that a user holds. -/
def references (session : Session σ) (slot : Nat) : Nat :=
  session.table.referrers slot + session.dumpsAt slot + session.holds.count slot

def outside (session : Session σ) : List Nat :=
  session.dumps.filterMap Dump.heldSlot? ++ session.holds

theorem references_eq (session : Session σ) (slot : Nat) :
    session.references slot = session.table.referrers slot + session.outside.count slot := by
  have dumps : session.dumpsAt slot = (session.dumps.filterMap Dump.heldSlot?).count slot := by
    rw [dumpsAt, List.count_filterMap]
    refine List.countP_congr fun dump _ => ?_
    cases started : dump.cursor <;> simp [Dump.heldSlot?, started]
  rw [references, outside, List.count_append, dumps, Nat.add_assoc]

/-! ## Runs -/

/-- What a balanced use of the engine respects: a user gives back only a reference that is
held, only built-in types are registered, and there are never 2³² references to a slot at
once, those included that an operation gives back itself. A request can go on to elements
that are refused, after it has added others. -/
structure Balanced [ForeignStorage σ] (session : Session σ) (operation : Operation σ) : Prop where
  released : ∀ slot, operation = .release slot → slot ∈ session.holds
  builtin : ∀ type, operation = .register type → type.Builtin
  before : ∀ slot, session.references slot + operation.taken < UInt32.size
  after : ∀ privileged request, operation = .request privileged request →
    ∀ slot, (session.after operation).references slot + operation.taken < UInt32.size

/-- What is left of a balanced use if types may come from outside. -/
structure Fair [ForeignStorage σ] (session : Session σ) (operation : Operation σ) : Prop where
  released : ∀ slot, operation = .release slot → slot ∈ session.holds
  before : ∀ slot, session.references slot + operation.taken < UInt32.size
  after : ∀ privileged request, operation = .request privileged request →
    ∀ slot, (session.after operation).references slot + operation.taken < UInt32.size

theorem Balanced.fair [ForeignStorage σ] {session : Session σ} {operation : Operation σ}
    (balanced : session.Balanced operation) : session.Fair operation :=
  ⟨balanced.released, balanced.before, balanced.after⟩

/-- There are no more references to a slot than there are lists, dumps and holds. -/
theorem references_le (session : Session σ) (slot : Nat) :
    session.references slot ≤
      session.table.capacity + session.dumps.length + session.holds.length := by
  have lists : session.table.referrers slot ≤ session.table.capacity := by
    have all := List.countP_le_length (p := fun id => slot ∈ session.table.members id)
      (l := List.range session.table.capacity)
    rwa [List.length_range] at all
  have dumps : session.dumpsAt slot ≤ session.dumps.length := List.countP_le_length
  have holds : session.holds.count slot ≤ session.holds.length := List.count_le_length
  unfold references
  omega

theorem Balanced.of_few [ForeignStorage σ] {session : Session σ} {operation : Operation σ}
    (direct : operation.Direct)
    (few : session.table.capacity + session.dumps.length + session.holds.length +
      operation.taken < UInt32.size) : session.Balanced operation where
  released slot same := by
    subst same
    exact direct.elim
  builtin type same := by
    subst same
    exact direct.elim
  before slot := by
    have bound := session.references_le slot
    omega
  after privileged request same := by
    subst same
    exact direct.elim

theorem Fair.of_few [ForeignStorage σ] {session : Session σ} {operation : Operation σ}
    (keeps : ∀ slot, operation ≠ .release slot)
    (few : session.table.capacity + session.dumps.length + session.holds.length +
      operation.taken + 1 < UInt32.size) : session.Fair operation where
  released slot same := absurd same (keeps slot)
  before slot := by
    have bound := session.references_le slot
    omega
  after privileged request same slot := by
    subst same
    have bound := (session.after (.request privileged request)).references_le slot
    have slots : (session.after (.request privileged request)).table.capacity =
        session.table.capacity := (session.after_reform _).capacity
    have dumps : (session.after (.request privileged request)).dumps.length ≤
        session.dumps.length + 1 := by
      simp only [Session.after]
      split <;> simp
    have holds : (session.after (.request privileged request)).holds = session.holds := by
      simp only [Session.after]
      split <;> rfl
    rw [slots, holds] at bound
    omega

def Unrestricted (_ : Session σ) (_ : Operation σ) : Prop := True

inductive Step [ForeignStorage σ] (rule : Session σ → Operation σ → Prop) (session : Session σ) :
    Session σ → Prop
  | after (operation : Operation σ) (allowed : rule session operation) :
      Step rule session (session.after operation)

def Reachable [ForeignStorage σ] (rule : Session σ → Operation σ → Prop)
    (session : Session σ) : Prop :=
  ∃ settings loader, Relation.ReflTransGen (Step rule) (fresh settings loader) session

theorem Reachable.fresh [ForeignStorage σ] (rule : Session σ → Operation σ → Prop)
    (settings : Settings) (loader : Loader) : (fresh settings loader).Reachable rule :=
  ⟨settings, loader, .refl⟩

theorem Reachable.after [ForeignStorage σ] {rule : Session σ → Operation σ → Prop}
    {session : Session σ} (reachable : session.Reachable rule) (operation : Operation σ)
    (allowed : rule session operation) : (session.after operation).Reachable rule := by
  obtain ⟨settings, loader, run⟩ := reachable
  exact ⟨settings, loader, run.tail (.after operation allowed)⟩

/-- What a strict rule lets be reached, a lenient one does too. -/
theorem Reachable.mono [ForeignStorage σ] {rule lenient : Session σ → Operation σ → Prop}
    {session : Session σ} (reachable : session.Reachable rule)
    (weaker : ∀ session operation, rule session operation → lenient session operation) :
    session.Reachable lenient := by
  obtain ⟨settings, loader, run⟩ := reachable
  refine ⟨settings, loader, run.lift id ?_⟩
  rintro before _ ⟨operation, allowed⟩
  exact .after operation (weaker before operation allowed)

/-- What holds of every new session and is kept by every operation that a rule allows holds
of every session that the rule lets be reached. -/
theorem Reachable.induction [ForeignStorage σ] {rule : Session σ → Operation σ → Prop}
    (kept : Session σ → Prop) (initial : ∀ settings loader, kept (.fresh settings loader))
    (step : ∀ session operation, kept session → rule session operation →
      kept (session.after operation))
    {session : Session σ} (reachable : session.Reachable rule) : kept session := by
  obtain ⟨settings, loader, run⟩ := reachable
  induction run with
  | refl => exact initial settings loader
  | tail _ last before =>
      obtain ⟨operation, allowed⟩ := last
      exact step _ operation before allowed

end Session

end NamedSets
