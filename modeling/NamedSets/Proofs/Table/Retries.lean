import NamedSets.Proofs.Table.Settling

/-!
# Retries

An add that asks for more room is followed by a resize and tried again, as often as the settings
allow. What is added to and resized is any machine at all: it may ask for ever, it may be another
one after a refused resize, and it may refuse for another reason at any time.
-/

namespace NamedSets

namespace Table

/-! ## Calls -/

structure Call where
  attempt : Attempt
  answer : Except Fault Unit

def Call.GoesOn : Call → Prop
  | ⟨.add, answer⟩ => Asks answer
  | ⟨.resize _, answer⟩ => answer = .ok ()

def resizes (calls : List Call) : Nat := calls.countP (·.attempt.isResize)

def adds (calls : List Call) : Nat := calls.countP (!·.attempt.isResize)

section

variable (answer : Except Fault Unit) (again : Bool) (calls : List Call)

@[simp] theorem resizes_add : resizes (⟨.add, answer⟩ :: calls) = resizes calls :=
  List.countP_cons_of_neg nofun

@[simp] theorem resizes_resize : resizes (⟨.resize again, answer⟩ :: calls) = resizes calls + 1 :=
  List.countP_cons_of_pos rfl

@[simp] theorem adds_add : adds (⟨.add, answer⟩ :: calls) = adds calls + 1 :=
  List.countP_cons_of_pos rfl

@[simp] theorem adds_resize : adds (⟨.resize again, answer⟩ :: calls) = adds calls :=
  List.countP_cons_of_neg nofun

end

/-- Adds and resizes by turns, an add first. A resize is told whether there was one before it;
`resized` says so of the first one. -/
def turn (resized : Bool) (index : Nat) : Attempt :=
  if index % 2 = 0 then .add else .resize (resized || decide (1 < index))

theorem turn_true (resized : Bool) (index : Nat) : turn true index = turn resized (index + 2) := by
  rw [turn, turn, Nat.add_mod_right]
  split
  · rfl
  · have before : 1 < index + 2 := by omega
    rw [Bool.true_or, decide_eq_true before, Bool.or_true]

inductive Ending (retries : Nat) (earlier : List Call) : Call → Prop
  | settled {answer : Except Fault Unit} (final : ¬ Asks answer) :
      Ending retries earlier ⟨.add, answer⟩
  | stuck (again : Bool) (refusal : Fault) :
      Ending retries earlier ⟨.resize again, .error refusal⟩
  | exhausted {answer : Except Fault Unit} (asks : Asks answer)
      (all : resizes earlier = retries) : Ending retries earlier ⟨.add, answer⟩

/-- The calls of an add that may resize so many times, and what comes of them. -/
structure Rounds (retries : Nat) (resized : Bool) (calls : List Call)
    (result : Except Fault Unit) : Prop where
  resizes : resizes calls ≤ retries
  adds : adds calls ≤ retries + 1
  turns : ∀ index call, calls[index]? = some call → call.attempt = turn resized index
  ends : ∃ earlier last, calls = earlier ++ [last] ∧ (∀ call ∈ earlier, call.GoesOn) ∧
    Ending retries earlier last ∧ last.answer = result

namespace Rounds

variable {retries : Nat} {resized : Bool} {calls : List Call} {answer result : Except Fault Unit}

theorem of_add (final : Asks answer → retries = 0) :
    Rounds retries resized [⟨.add, answer⟩] answer where
  resizes := Nat.zero_le retries
  adds := Nat.le_add_left 1 retries
  turns index call found := by
    obtain _ | index := index
    · cases found
      rfl
    · simp at found
  ends := by
    refine ⟨[], ⟨.add, answer⟩, rfl, List.forall_mem_nil _, ?_, rfl⟩
    by_cases asks : Asks answer
    · exact .exhausted asks (final asks).symm
    · exact .settled asks

theorem of_resize (asks : Asks answer) (refusal : Fault) :
    Rounds (retries + 1) resized [⟨.add, answer⟩, ⟨.resize resized, .error refusal⟩]
      (.error refusal) where
  resizes := Nat.le_add_left 1 retries
  adds := Nat.le_add_left 1 (retries + 1)
  turns index call found := by
    obtain _ | _ | index := index
    · cases found
      rfl
    · cases found
      simp [turn]
    · simp at found
  ends := ⟨[⟨.add, answer⟩], _, rfl, List.forall_mem_singleton.mpr asks,
    .stuck resized refusal, rfl⟩

theorem behind (asks : Asks answer) (rounds : Rounds retries true calls result) :
    Rounds (retries + 1) resized (⟨.add, answer⟩ :: ⟨.resize resized, .ok ()⟩ :: calls) result where
  resizes := by simpa using rounds.resizes
  adds := by simpa using rounds.adds
  turns index call found := by
    obtain _ | _ | index := index
    · cases found
      rfl
    · cases found
      simp [turn]
    · exact (rounds.turns index call found).trans (turn_true resized index)
  ends := by
    obtain ⟨earlier, last, rfl, going, ending, answers⟩ := rounds.ends
    refine ⟨⟨.add, answer⟩ :: ⟨.resize resized, .ok ()⟩ :: earlier, last, rfl, ?_, ?_, answers⟩
    · exact List.forall_mem_cons.mpr ⟨asks, List.forall_mem_cons.mpr ⟨rfl, going⟩⟩
    · cases ending with
      | settled final => exact .settled final
      | stuck again refusal => exact .stuck again refusal
      | exhausted asks all => exact .exhausted asks (by simpa using all)

end Rounds

/-! ## Machines -/

/-- What an add with retries asks of a state. -/
structure Machine (State : Type) where
  add : State → State × Except Fault Unit
  resize : Bool → State → State × Except Fault Unit

namespace Machine

variable {State : Type} (machine : Machine State)

def perform : Attempt → State → State × Except Fault Unit
  | .add => machine.add
  | .resize again => machine.resize again

/-- Each call is answered in the state that the one before it left. -/
inductive Answers : State → List Call → State → Prop
  | nil (state : State) : Answers state [] state
  | cons {state after final : State} {call : Call} {calls : List Call}
      (first : machine.perform call.attempt state = (after, call.answer))
      (others : Answers after calls final) : Answers state (call :: calls) final

def settleNoting (retries : Nat) (resized : Bool) (noted : State × List Attempt) :
    (State × List Attempt) × Except Fault Unit :=
  settle (noting .add machine.add) (fun again => noting (.resize again) (machine.resize again))
    retries resized noted

/-- Whatever the machine, an add that may resize goes through rounds of calls. -/
theorem settleNoting_rounds (machine : Machine State) (retries : Nat) (resized : Bool)
    (state : State) (earlier : List Attempt) :
    ∃ calls final result,
      machine.settleNoting retries resized (state, earlier) =
        ((final, earlier ++ calls.map Call.attempt), result) ∧
      machine.Answers state calls final ∧ Rounds retries resized calls result := by
  have ran := settles machine.add machine.resize retries resized state
  generalize settle machine.add machine.resize retries resized state = outcome at ran
  -- The rounds that follow the first are noted behind it, and a resize came before them.
  induction ran generalizing earlier with
  | @last _ resized _ added answer tried final =>
      exact ⟨[⟨.add, answer⟩], added, answer,
        settle_last resized (noting_eq tried .add earlier) final, .cons tried (.nil added),
        .of_add final⟩
  | @stuck _ resized _ added grown fault refusal tried full refused =>
      have asks : Asks (.error fault) := ⟨fault, rfl, full⟩
      have first := noting_eq tried .add earlier
      have second := noting_eq refused (.resize resized) (earlier ++ [.add])
      rw [List.append_assoc] at second
      exact ⟨[⟨.add, .error fault⟩, ⟨.resize resized, .error refusal⟩], grown, .error refusal,
        settle_stuck first full second, .cons tried (.cons refused (.nil grown)),
        .of_resize asks refusal⟩
  | @grown _ resized _ added grown fault _ tried full growth _ ih =>
      have asks : Asks (.error fault) := ⟨fault, rfl, full⟩
      have first := noting_eq tried .add earlier
      have second := noting_eq growth (.resize resized) (earlier ++ [.add])
      rw [List.append_assoc] at second
      obtain ⟨calls, final, result, settled, answers, rounds⟩ :=
        ih (earlier ++ [.add, .resize resized])
      rw [List.append_assoc] at settled
      exact ⟨⟨.add, .error fault⟩ :: ⟨.resize resized, .ok ()⟩ :: calls, final, result,
        (settle_grown first full second).trans settled, .cons tried (.cons growth answers),
        rounds.behind asks⟩

end Machine

/-! ## Sets that grow -/

variable {σ : Type} [ForeignStorage σ] {table final : Table σ} {slot : Nat} {inner : σ}
  {calls : List Call} {data : List Datum}

def machine (slot : Nat) (data : List Datum) : Machine (Table σ) where
  add table := table.addElement slot data
  resize again table := table.resize slot again

/-- A storage from outside as far as it is added to, with these slots shown to it. -/
def machineInside (slots : List (Option Shown)) (data : List Datum) : Machine σ where
  add inner := ForeignStorage.add (ForeignStorage.observe inner slots) data
  resize again inner := ForeignStorage.resize inner again

/-- Each attempt at a set from outside is one call of its storage. -/
theorem perform_foreign (stored : table.storage? slot = some (.foreign inner)) (data : List Datum)
    (attempt : Attempt) :
    (machine slot data).perform attempt table =
      ((machineInside table.shown data).perform attempt inner).map (table.setStorage slot <| .foreign ·)
        id := by
  obtain ⟨entry, found, same⟩ := Option.map_eq_some_iff.mp stored
  cases attempt with
  | add =>
      change table.addElement slot data = _
      rw [addElement]
      simp only [found, same]
      rfl
  | resize again =>
      change table.resize slot again = _
      rw [resize]
      simp only [found, same]
      rfl

theorem Machine.Answers.inside (answers : (machine slot data).Answers table calls final)
    (stored : table.storage? slot = some (.foreign inner)) :
    ∃ last, (machineInside table.shown data).Answers inner calls last ∧
      final = table.setStorage slot (.foreign last) := by
  induction answers generalizing inner with
  | nil table => exact ⟨inner, .nil inner, (setStorage_self stored).symm⟩
  | @cons table after final call calls first others ih =>
      rw [perform_foreign stored] at first
      cases called : (machineInside table.shown data).perform call.attempt inner with
      | mk changed answer =>
          rw [called] at first
          obtain ⟨rfl, rfl⟩ := Prod.mk.inj first
          have kept := storage_setStorage stored (.foreign changed) slot
          rw [if_pos rfl] at kept
          obtain ⟨last, rest, whole⟩ := ih kept
          rw [shown_setStorage] at rest
          exact ⟨last, .cons called rest, by rw [whole, setStorage_setStorage]⟩

/-- Whatever set is in a slot, an add that may resize it `retries` times resizes it that often at
most and adds once more at most, by turns and an add first, and tells every resize but the first
that there was one before it. It comes to the first answer to an add that does not ask for more
room, to the refusal of the first resize that fails, or to an add that still asks when all resizes
have been made. To a storage from outside these are all the calls that are made. -/
theorem addElementResizing_rounds (table : Table σ) (slot retries : Nat) (data : List Datum) :
    ∃ calls final result,
      table.addElementResizing slot retries data = (final, result) ∧
      table.addElementNoting slot retries data = ((final, calls.map Call.attempt), result) ∧
      (machine slot data).Answers table calls final ∧
      Rounds retries false calls result ∧
      ∀ inner, table.storage? slot = some (.foreign inner) →
        ∃ last, (machineInside table.shown data).Answers inner calls last ∧
          final = table.setStorage slot (.foreign last) := by
  obtain ⟨calls, final, result, noted, answers, rounds⟩ :=
    (machine slot data).settleNoting_rounds retries false table []
  have seen := addElementNoting_seen table slot retries data
  refine ⟨calls, final, result, ?_, noted, answers, rounds, fun inner => answers.inside⟩
  rw [← seen]
  exact congrArg (Prod.map Prod.fst id) noted

/-! ## Answers that are written down -/

/-- A storage from outside that gives the answers written for it one after the other. Behind the
last one it asks for more room for ever. -/
structure Scripted where
  answers : List (Except Fault Unit)

def Scripted.next : Scripted → Scripted × Except Fault Unit
  | ⟨[]⟩ => (⟨[]⟩, .error .mustResize)
  | ⟨answer :: others⟩ => (⟨others⟩, answer)

instance : ForeignStorage Scripted where
  create blank _ _ := .ok blank
  testPacket scripted _ := (scripted, .ok false)
  addPacket scripted _ := scripted.next
  deletePacket scripted _ := scripted.next
  test scripted _ := (scripted, .ok false)
  add scripted _ := scripted.next
  delete scripted _ := scripted.next
  flush scripted := scripted
  describe _ draft := (draft, .ok ())
  list _ cursor draft := (draft, cursor, .ok .done)
  resize scripted _ := scripted.next

def scriptedTable (scripted : Scripted) : Table Scripted where
  slots := #[some {
    name := { text := "scripted", nonempty := by decide, short := by decide, noNul := by decide }
    type :=
      { name := "scripted", family := .unspecified, revision := 0, dimension := 1, features := {}
        maker := .foreign scripted }
    family := .unspecified
    references := 0
    storage := .foreign scripted }]

def Scripted.Goes (scripted : Scripted) (retries : Nat) (attempts : List Attempt)
    (result : Except Fault Unit) : Prop :=
  (scriptedTable scripted).storage? 0 = some (.foreign scripted) ∧
  ∃ calls last, calls.map Call.attempt = attempts ∧
    (machineInside (scriptedTable scripted).shown []).Answers scripted calls last ∧ Rounds retries false calls result ∧
    (scriptedTable scripted).addElementResizing 0 retries [] =
      ((scriptedTable scripted).setStorage 0 (.foreign last), result)

/-- An add that still asks after two resizes, one whose second resize is refused, one that is
refused for another reason in between, and one that may not resize. -/
theorem addElementResizing_rounds_scripted :
    Scripted.Goes ⟨[.error .mustResize, .ok (), .error .mustResize, .ok ()]⟩ 2
      [.add, .resize false, .add, .resize true, .add] (.error .mustResize) ∧
    Scripted.Goes ⟨[.error .mustResize, .ok (), .error .mustResize, .error .cannotResize]⟩ 2
      [.add, .resize false, .add, .resize true] (.error .cannotResize) ∧
    Scripted.Goes ⟨[.error .mustResize, .ok (), .error .elementExists]⟩ 2
      [.add, .resize false, .add] (.error .elementExists) ∧
    Scripted.Goes ⟨[]⟩ 0 [.add] (.error .mustResize) := by
  have goes {scripted : Scripted} {retries : Nat} {attempts : List Attempt}
      {result : Except Fault Unit}
      (evaluated : ((scriptedTable scripted).addElementNoting 0 retries []).map Prod.snd id =
        (attempts, result)) : scripted.Goes retries attempts result := by
    obtain ⟨calls, final, answer, added, noted, -, rounds, inside⟩ :=
      addElementResizing_rounds (scriptedTable scripted) 0 retries []
    rw [noted] at evaluated
    obtain ⟨rfl, rfl⟩ := Prod.mk.inj evaluated
    obtain ⟨last, answers, rfl⟩ := inside scripted rfl
    exact ⟨rfl, calls, last, rfl, answers, rounds, added⟩
  exact ⟨goes rfl, goes rfl, goes rfl, goes rfl⟩

end Table

end NamedSets
