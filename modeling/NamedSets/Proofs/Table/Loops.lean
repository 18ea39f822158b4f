import NamedSets.Engine.Changes

namespace NamedSets

variable {σ : Type} (kept : Table σ → Prop) {table after : Table σ}

namespace Table

theorem anySlot_preserves {test : Table σ → Nat → Option (Table σ × Bool)} {ids : List Nat}
    {found : Bool}
    (step : ∀ table id after found, kept table → test table id = some (after, found) →
      kept after)
    (before : kept table) (ran : anySlot test table ids = some (after, found)) : kept after := by
  induction ids generalizing table with
  | nil =>
      cases ran
      exact before
  | cons id rest ih =>
      cases first : test table id with
      | none => simp [anySlot, first] at ran
      | some outcome =>
          obtain ⟨tested, answer⟩ := outcome
          have next := step table id tested answer before first
          cases answer with
          | true =>
              simp only [anySlot, first, Option.some.injEq, Prod.mk.injEq] at ran
              exact ran.1 ▸ next
          | false =>
              simp only [anySlot, first] at ran
              exact ih next ran

theorem firstSlot_preserves {change : Table σ → Nat → Option (Table σ × Except Fault Unit)}
    {ids : List Nat} {result : Except Fault Unit}
    (step : ∀ table id after result, kept table → change table id = some (after, result) →
      kept after)
    (before : kept table) (ran : firstSlot change table ids = some (after, result)) :
    kept after := by
  induction ids generalizing table with
  | nil =>
      cases ran
      exact before
  | cons id rest ih =>
      cases first : change table id with
      | none => simp [firstSlot, first] at ran
      | some outcome =>
          obtain ⟨changed, answer⟩ := outcome
          have next := step table id changed answer before first
          cases answer with
          | ok done =>
              simp only [firstSlot, first, Option.some.injEq, Prod.mk.injEq] at ran
              exact ran.1 ▸ next
          | error fault =>
              simp only [firstSlot, first] at ran
              exact ih next ran

theorem foldl_preserves {change : Table σ → Nat → Table σ}
    (step : ∀ table id, kept table → kept (change table id)) (ids : List Nat)
    (before : kept table) : kept (ids.foldl change table) := by
  induction ids generalizing table with
  | nil => exact before
  | cons id rest ih => exact ih (step table id before)

/-! ## Adding with resizes -/

def Asks (answer : Except Fault Unit) : Prop :=
  ∃ fault, answer = .error fault ∧ fault.errno = .again

section

variable {State : Type} {add : State → State × Except Fault Unit}
  {resize : Bool → State → State × Except Fault Unit} {state added grown : State}
  {answer : Except Fault Unit} {retries : Nat} {resized : Bool} {fault refusal : Fault}
  {outcome : State × Except Fault Unit}

theorem settle_done (retries : Nat) (resized : Bool) (done : add state = (added, .ok ())) :
    settle add resize retries resized state = (added, .ok ()) := by
  unfold settle
  simp only [done]

theorem settle_failed (resized : Bool) (failed : add state = (added, .error fault))
    (final : fault.errno = .again → retries = 0) :
    settle add resize retries resized state = (added, .error fault) := by
  unfold settle
  simp only [failed]
  split
  · rename_i full
    cases final full
  · rfl

theorem settle_last (resized : Bool) (tried : add state = (added, answer))
    (last : Asks answer → retries = 0) :
    settle add resize retries resized state = (added, answer) := by
  cases answer with
  | ok => exact settle_done retries resized tried
  | error fault => exact settle_failed resized tried fun full => last ⟨fault, rfl, full⟩

theorem settle_grown (asked : add state = (added, .error fault)) (full : fault.errno = .again)
    (larger : resize resized added = (grown, .ok ())) :
    settle add resize (retries + 1) resized state = settle add resize retries true grown := by
  rw [settle]
  simp only [asked, full, larger]

theorem settle_stuck (asked : add state = (added, .error fault)) (full : fault.errno = .again)
    (stuck : resize resized added = (grown, .error refusal)) :
    settle add resize (retries + 1) resized state = (grown, .error refusal) := by
  rw [settle]
  simp only [asked, full, stuck]

/-- How an add with resizes goes, from what its last attempt came to back to the first. -/
inductive Settles (add : State → State × Except Fault Unit)
    (resize : Bool → State → State × Except Fault Unit) :
    Nat → Bool → State → State × Except Fault Unit → Prop
  | last {retries : Nat} {resized : Bool} {state added : State} {answer : Except Fault Unit}
      (tried : add state = (added, answer)) (final : Asks answer → retries = 0) :
      Settles add resize retries resized state (added, answer)
  | stuck {retries : Nat} {resized : Bool} {state added grown : State} {fault refusal : Fault}
      (tried : add state = (added, .error fault)) (full : fault.errno = .again)
      (refused : resize resized added = (grown, .error refusal)) :
      Settles add resize (retries + 1) resized state (grown, .error refusal)
  | grown {retries : Nat} {resized : Bool} {state added grown : State} {fault : Fault}
      {outcome : State × Except Fault Unit} (tried : add state = (added, .error fault))
      (full : fault.errno = .again) (growth : resize resized added = (grown, .ok ()))
      (others : Settles add resize retries true grown outcome) :
      Settles add resize (retries + 1) resized state outcome

theorem settles (add : State → State × Except Fault Unit)
    (resize : Bool → State → State × Except Fault Unit) (retries : Nat) (resized : Bool)
    (state : State) :
    Settles add resize retries resized state (settle add resize retries resized state) := by
  induction retries using Nat.strongRecOn generalizing resized state with
  | _ retries ih =>
      cases tried : add state with
      | mk added answer =>
          by_cases final : Asks answer → retries = 0
          · rw [settle_last resized tried final]
            exact .last tried final
          · obtain ⟨⟨fault, rfl, full⟩, more⟩ := Classical.not_imp.mp final
            obtain ⟨fewer, rfl⟩ := Nat.exists_eq_succ_of_ne_zero more
            cases growth : resize resized added with
            | mk grown answered =>
                cases answered with
                | ok =>
                    rw [settle_grown tried full growth]
                    exact .grown tried full growth (ih fewer (Nat.lt_succ_self fewer) true grown)
                | error refusal =>
                    rw [settle_stuck tried full growth]
                    exact .stuck tried full growth

/-- An add that succeeds settles at once. -/
theorem Settles.done (ran : Settles add resize retries resized state outcome)
    (done : (add state).2 = .ok ()) : outcome.2 = .ok () := by
  cases ran with
  | last tried => rwa [tried] at done
  | stuck tried | grown tried =>
      rw [tried] at done
      cases done

end

/-- What an add comes to in every kept state, and a growth that is refused there, is what settling
comes to. -/
theorem settle_ends (ends : Table σ × Except Fault Unit → Prop)
    {add : Table σ → Table σ × Except Fault Unit}
    {resize : Bool → Table σ → Table σ × Except Fault Unit}
    (adds : ∀ table, kept table → kept (add table).1 ∧ ends (add table))
    (resizes : ∀ again table, kept table → kept (resize again table).1)
    (stuck : ∀ again table fault, kept table → (resize again table).2 = .error fault →
      ends (resize again table))
    (retries : Nat) (resized : Bool) (before : kept table) :
    ends (settle add resize retries resized table) := by
  have ran := settles add resize retries resized table
  generalize settle add resize retries resized table = outcome at ran ⊢
  induction ran with
  | @last _ _ table _ _ tried =>
      have ended := (adds table before).2
      rwa [tried] at ended
  | @stuck _ resized table added _ _ refusal tried _ refused =>
      have next := (adds table before).1
      rw [tried] at next
      have ended := stuck resized added refusal next (congrArg Prod.snd refused)
      rwa [refused] at ended
  | @grown _ resized table added _ _ _ tried _ growth _ ih =>
      have next := (adds table before).1
      rw [tried] at next
      have larger := resizes resized added next
      rw [growth] at larger
      exact ih larger

theorem settle_preserves {add : Table σ → Table σ × Except Fault Unit}
    {resize : Bool → Table σ → Table σ × Except Fault Unit}
    (adds : ∀ table, kept table → kept (add table).1)
    (resizes : ∀ again table, kept table → kept (resize again table).1)
    (retries : Nat) (resized : Bool) (before : kept table) :
    kept (settle add resize retries resized table).1 :=
  settle_ends kept (fun outcome => kept outcome.1)
    (fun table before => ⟨adds table before, adds table before⟩) resizes
    (fun again table _ before _ => resizes again table before) retries resized before

end Table

namespace Engine

theorem applyBatch_preserves {change : Table σ → List Datum → Table σ × Except Fault Unit}
    {allowExisting : Bool}
    (step : ∀ table data, kept table → kept (change table data).1)
    (position : Nat) (blocks : List Attr.Raw) (before : kept table) :
    kept (applyBatch change allowExisting position blocks table).1 := by
  induction blocks generalizing position table with
  | nil => exact before
  | cons block rest ih =>
      unfold applyBatch
      split
      · exact before
      · rename_i data read
        have next := step table data before
        split
        · rename_i changed same
          rw [same] at next
          exact ih (position + 1) next
        · rename_i changed fault same
          rw [same] at next
          split
          · exact ih (position + 1) next
          · exact next

end Engine

end NamedSets
