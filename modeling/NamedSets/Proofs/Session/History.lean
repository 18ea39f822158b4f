import NamedSets.Proofs.Dump.Steps
import NamedSets.Proofs.Session.Names
import NamedSets.Proofs.Session.Soundness

namespace NamedSets

structure Moment (σ : Type) where
  session : Session σ
  operation : Operation σ

variable {σ : Type}

def Moment.answer? [ForeignStorage σ] (moment : Moment σ) (index : Nat) :
    Option (Except Fault (Option Bytes)) :=
  match moment.operation with
  | .stepDump stepped =>
      if stepped = index then
        moment.session.dumps[index]?.map fun dump => (moment.session.engine.stepDump dump).2.2
      else none
  | _ => none

def Moment.page? [ForeignStorage σ] (moment : Moment σ) (index : Nat) : Option Page :=
  match moment.answer? index with
  | some (.ok (some bytes)) => Page.read? bytes
  | _ => none

def Moment.headed? [ForeignStorage σ] (moment : Moment σ) (index : Nat) :
    Option (Nat × Entry σ) :=
  match moment.page? index with
  | some page =>
      if page.description.isSome then moment.session.table.lookup? page.name.text else none
  | none => none

section Silent

variable [ForeignStorage σ] {moment : Moment σ} {index : Nat}

/-- Only its own steps answer anything to a dump. -/
theorem Moment.answer_eq_none (other : moment.operation ≠ .stepDump index) :
    moment.answer? index = none := by
  unfold answer?
  split
  · rename_i stepped same
    exact if_neg fun equal => other (by rw [same, equal])
  · rfl

theorem Moment.page_eq_none (other : moment.operation ≠ .stepDump index) :
    moment.page? index = none := by
  simp only [page?, answer_eq_none other]

theorem Moment.headed_eq_none (other : moment.operation ≠ .stepDump index) :
    moment.headed? index = none := by
  simp only [headed?, page_eq_none other]

end Silent

namespace Session

variable [ForeignStorage σ] {session : Session σ} {operation : Operation σ}
  {operations : List (Operation σ)} {index slot : Nat} {dump : Dump}

def history (session : Session σ) : List (Operation σ) → List (Moment σ)
  | [] => []
  | operation :: rest => { session, operation } :: (session.after operation).history rest

def run (session : Session σ) : List (Operation σ) → Session σ
  | [] => session
  | operation :: rest => (session.after operation).run rest

def answers (session : Session σ) (operations : List (Operation σ)) (index : Nat) :
    List (Except Fault (Option Bytes)) :=
  (session.history operations).filterMap (·.answer? index)

def pages (session : Session σ) (operations : List (Operation σ)) (index : Nat) : List Page :=
  (session.history operations).filterMap (·.page? index)

def headed (session : Session σ) (operations : List (Operation σ)) (index : Nat) :
    List (Nat × Entry σ) :=
  (session.history operations).filterMap (·.headed? index)

private theorem filterMap_cons_toList {α β : Type} (choose : α → Option β) (first : α)
    (rest : List α) :
    (first :: rest).filterMap choose = (choose first).toList ++ rest.filterMap choose := by
  rw [List.filterMap_cons]
  cases choose first <;> rfl

theorem answers_cons (session : Session σ) (operation : Operation σ)
    (operations : List (Operation σ)) (index : Nat) :
    session.answers (operation :: operations) index =
      (Moment.answer? { session, operation } index).toList ++
        (session.after operation).answers operations index := filterMap_cons_toList _ _ _

theorem pages_cons (session : Session σ) (operation : Operation σ)
    (operations : List (Operation σ)) (index : Nat) :
    session.pages (operation :: operations) index =
      (Moment.page? { session, operation } index).toList ++
        (session.after operation).pages operations index := filterMap_cons_toList _ _ _

theorem headed_cons (session : Session σ) (operation : Operation σ)
    (operations : List (Operation σ)) (index : Nat) :
    session.headed (operation :: operations) index =
      (Moment.headed? { session, operation } index).toList ++
        (session.after operation).headed operations index := filterMap_cons_toList _ _ _

section Others

variable (other : operation ≠ .stepDump index)

include other

theorem answers_other :
    session.answers (operation :: operations) index =
      (session.after operation).answers operations index :=
  List.filterMap_cons_none (Moment.answer_eq_none other)

theorem pages_other :
    session.pages (operation :: operations) index =
      (session.after operation).pages operations index :=
  List.filterMap_cons_none (Moment.page_eq_none other)

theorem headed_other :
    session.headed (operation :: operations) index =
      (session.after operation).headed operations index :=
  List.filterMap_cons_none (Moment.headed_eq_none other)

end Others

theorem operation_mem {moment : Moment σ} (present : moment ∈ session.history operations) :
    moment.operation ∈ operations := by
  induction operations generalizing session with
  | nil => contradiction
  | cons operation rest ih =>
      rcases List.mem_cons.mp present with rfl | later
      · exact List.mem_cons_self
      · exact List.mem_cons_of_mem _ (ih later)

/-- After an operation comes the next moment or the end of the run. -/
theorem next_or_last {moment : Moment σ} (present : moment ∈ session.history operations) :
    (∃ next ∈ session.history operations,
      next.session = moment.session.after moment.operation) ∨
    moment.session.after moment.operation = session.run operations := by
  induction operations generalizing session with
  | nil => contradiction
  | cons operation rest ih =>
      rcases List.mem_cons.mp present with rfl | later
      · cases rest with
        | nil => exact .inr rfl
        | cons other others =>
            exact .inl ⟨_, List.mem_cons_of_mem _ List.mem_cons_self, rfl⟩
      · obtain ⟨next, among, same⟩ | last := ih later
        · exact .inl ⟨next, List.mem_cons_of_mem _ among, same⟩
        · exact .inr last

def AllBalanced (session : Session σ) (operations : List (Operation σ)) : Prop :=
  ∀ moment ∈ session.history operations, moment.session.Balanced moment.operation

theorem AllBalanced.head (balanced : session.AllBalanced (operation :: operations)) :
    session.Balanced operation := balanced _ List.mem_cons_self

theorem AllBalanced.tail (balanced : session.AllBalanced (operation :: operations)) :
    (session.after operation).AllBalanced operations :=
  fun moment present => balanced moment (List.mem_cons_of_mem _ present)

/-- One operation starts at most one dump or takes at most one reference for a user. -/
theorem crowd_after (session : Session σ) (direct : operation.Direct) :
    (session.after operation).dumps.length + (session.after operation).holds.length ≤
      session.dumps.length + session.holds.length + 1 := by
  have taken (outcome : Table σ × Option Nat) :
      (session.holding outcome).holds.length ≤ session.holds.length + 1 := by
    cases held : outcome.2 <;> simp [holding, held]
  cases operation with
  | request privileged request | release slot | register type => exact direct.elim
  | holdByName name =>
      have more := taken (session.table.holdByName name)
      change session.dumps.length + (session.holding _).holds.length ≤ _
      omega
  | holdById slot =>
      have more := taken (session.table.holdById slot)
      change session.dumps.length + (session.holding _).holds.length ≤ _
      omega
  | startDump privileged request =>
      simp only [after]
      split
      · simp only [List.length_append, List.length_singleton]
        omega
      · omega
  | stepDump index | endDump index =>
      simp only [after]
      split
      · omega
      · simp only [List.length_set]
        omega
  | unregister name family revision =>
      simp only [after]
      split <;> exact Nat.le_succ _
  | _ => exact Nat.le_succ _

/-- Direct operations are those of a balanced use, as long as there are not too many of them. -/
theorem AllBalanced.of_few (direct : ∀ operation ∈ operations, operation.Direct)
    (few : session.table.capacity + session.dumps.length + session.holds.length +
      operations.length < UInt32.size) : session.AllBalanced operations := by
  induction operations generalizing session with
  | nil => exact fun moment present => nomatch present
  | cons operation rest ih =>
      obtain ⟨first, others⟩ := List.forall_mem_cons.mp direct
      rw [List.length_cons] at few
      have taken := operation.taken_le_one
      have crowd := session.crowd_after first
      have slots := (session.after_reform operation).capacity
      have balanced : session.Balanced operation := .of_few first (by omega)
      refine List.forall_mem_cons.mpr ⟨balanced, ih others ?_⟩
      change _ = session.table.capacity at slots
      omega

/-! ## Reachable sessions -/

theorem Reachable.hashesValid {rule : Session σ → Operation σ → Prop}
    (reachable : session.Reachable rule) : session.table.HashesValid := by
  refine Reachable.induction (fun session => session.table.HashesValid) ?_ ?_ reachable
  · intro settings loader id hash stored
    have vacant := Table.get_empty (σ := σ) settings.capacity id
    change Option.map _ ((Table.empty settings.capacity : Table σ).get? id) = _ at stored
    rw [vacant] at stored
    contradiction
  · intro session operation valid _
    exact valid.course (session.after_course operation)

theorem Reachable.allListable (reachable : session.Reachable Balanced) :
    session.table.AllListable :=
  reachable.sound.table.allListable reachable.hashesValid reachable.namesDistinct

theorem Reachable.run (reachable : session.Reachable Balanced)
    (balanced : session.AllBalanced operations) : (session.run operations).Reachable Balanced := by
  induction operations generalizing session with
  | nil => exact reachable
  | cons operation rest ih => exact ih (reachable.after operation balanced.head) balanced.tail

theorem Reachable.moment (reachable : session.Reachable Balanced)
    (balanced : session.AllBalanced operations) {moment : Moment σ}
    (present : moment ∈ session.history operations) : moment.session.Reachable Balanced := by
  induction operations generalizing session with
  | nil => contradiction
  | cons operation rest ih =>
      rcases List.mem_cons.mp present with rfl | later
      · exact reachable
      · exact ih (reachable.after operation balanced.head) balanced.tail later

/-! ## Dumps in a run -/

/-- Operations other than those on the dump leave it as it is. -/
theorem dump_after (found : session.dumps[index]? = some dump)
    (notStep : operation ≠ .stepDump index) (notEnd : operation ≠ .endDump index) :
    (session.after operation).dumps[index]? = some dump := by
  have inside := (List.getElem?_eq_some_iff.mp found).1
  cases operation with
  | request privileged request =>
      simp only [after]
      split
      · exact found
      · exact (List.getElem?_append_left inside).trans found
  | startDump privileged request =>
      simp only [after]
      split
      · exact (List.getElem?_append_left inside).trans found
      · exact found
  | stepDump other =>
      have different : other ≠ index := fun same => notStep (congrArg _ same)
      simp only [after]
      split
      · exact found
      · rw [List.getElem?_set_ne different]
        exact found
  | endDump other =>
      have different : other ≠ index := fun same => notEnd (congrArg _ same)
      simp only [after]
      split
      · exact found
      · rw [List.getElem?_set_ne different]
        exact found
  | register type =>
      simp only [after]
      split <;> exact found
  | unregister name family revision =>
      simp only [after]
      split <;> exact found
  | _ => exact found

theorem step_after (found : session.dumps[index]? = some dump) :
    (session.after (.stepDump index)).engine = { session.engine with
        table := (dump.step session.table session.engine.settings.messageSize).1 } ∧
      (session.after (.stepDump index)).dumps[index]? =
        some (dump.step session.table session.engine.settings.messageSize).2.1 ∧
      Moment.answer? { session, operation := .stepDump index } index =
        some (dump.step session.table session.engine.settings.messageSize).2.2 := by
  have inside := (List.getElem?_eq_some_iff.mp found).1
  refine ⟨?_, ?_, ?_⟩
  · simp only [after, found]
    rfl
  · simp only [after, found]
    rw [List.getElem?_set_self inside]
    rfl
  · simp only [Moment.answer?, if_true, found, Option.map_some]
    rfl

/-! ## Dumps that are opened -/

/-- The operation is a request, or asks for a dump only. -/
inductive Asks (request : Message.Request) : Operation σ → Prop
  | request (privileged : Bool) : Asks request (.request privileged request)
  | startDump (privileged : Bool) : Asks request (.startDump privileged request)

structure Opens (session : Session σ) (operation : Operation σ) (request : Message.Request)
    (dump : Dump) : Prop where
  asks : Asks request operation
  opened : (session.after operation).dumps = session.dumps ++ [dump]

theorem Opens.spec {request : Message.Request} (opens : session.Opens operation request dump) :
    session.engine.dumpOf request = .ok dump ∧
      session.after operation = { session with dumps := session.dumps ++ [dump] } := by
  obtain ⟨asks, opened⟩ := opens
  have grown (same : session.dumps = session.dumps ++ [dump]) : False := by
    simpa using congrArg List.length same
  cases asks with
  | request privileged =>
      simp only [after] at opened ⊢
      split at opened
      · exact (grown opened).elim
      · rename_i engine echoed other answered
        have same : other = dump := by simpa using opened
        subst same
        obtain ⟨unchanged, started, -⟩ := Engine.handle_dumpOf (congrArg (·.2.2) answered)
        rw [answered] at unchanged
        subst unchanged
        exact ⟨started, rfl⟩
  | startDump privileged =>
      simp only [after] at opened ⊢
      split at opened
      · rename_i other started
        have same : other = dump := by simpa using opened
        subst same
        exact ⟨Engine.startDump_dumpOf started, rfl⟩
      · exact (grown opened).elim

theorem Opens.here {request : Message.Request} (opens : session.Opens operation request dump) :
    (session.after operation).dumps[session.dumps.length]? = some dump := by
  rw [opens.opened]
  exact List.getElem?_concat_length

end Session

end NamedSets
