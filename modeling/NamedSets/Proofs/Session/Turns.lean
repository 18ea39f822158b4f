import NamedSets.Proofs.Session.History

namespace NamedSets.Session

open Table (SameLabels)

variable {σ : Type} [ForeignStorage σ] {session : Session σ} {dump : Dump} {index : Nat}

def turn (session : Session σ) (index : Nat) : Moment σ :=
  { session, operation := .stepDump index }

theorem answers_turn (session : Session σ) (operations : List (Operation σ)) (index : Nat) :
    session.answers (.stepDump index :: operations) index =
      ((session.turn index).answer? index).toList ++
        (session.after (.stepDump index)).answers operations index := answers_cons _ _ _ _

theorem pages_turn (session : Session σ) (operations : List (Operation σ)) (index : Nat) :
    session.pages (.stepDump index :: operations) index =
      ((session.turn index).page? index).toList ++
        (session.after (.stepDump index)).pages operations index := pages_cons _ _ _ _

theorem headed_turn (session : Session σ) (operations : List (Operation σ)) (index : Nat) :
    session.headed (.stepDump index :: operations) index =
      ((session.turn index).headed? index).toList ++
        (session.after (.stepDump index)).headed operations index := headed_cons _ _ _ _

structure Sent (session : Session σ) (index : Nat) (dump found : Dump) (entry : Entry σ)
    (page : Page) (next : Nat) (later : Dump) : Prop where
  going : dump.finished = false
  sought : dump.seek session.table = .ok (found, some entry)
  answer : ∃ bytes, (session.turn index).answer? index = some (.ok (some bytes))
  told : (session.turn index).page? index = some page
  headed : (session.turn index).headed? index =
    if dump.cursor.isNone then some (found.slot, entry) else none
  elements : page.elements = (found.listedUpTo session.table entry next).map (·.2)
  dumped : (session.after (.stepDump index)).dumps[index]? = some later
  goes : (found.place < next ∧ later = { found with cursor := some next }) ∨
    ((∀ element ∈ session.table.elementsFrom entry.storage found.place, element.1 < next) ∧
      later = found.leave session.table)

/-- What a step does: nothing if the dump is over, or it fails because the only set has gone, or
it ends the dump, or it sends a page. -/
inductive Turn (session : Session σ) (index : Nat) (dump : Dump) : Prop
  | spent (finished : dump.finished = true)
      (answer : (session.turn index).answer? index = some (.ok none))
      (dumped : (session.after (.stepDump index)).dumps[index]? = some dump)
  | gone (mode : dump.mode = .one) (idle : dump.cursor = none)
      (vacant : session.table.get? dump.slot = none)
      (headed : (session.turn index).headed? index = none)
  | ended (found : Dump) (going : dump.finished = false) (idle : dump.cursor = none)
      (sought : dump.seek session.table = .ok (found, none))
      (answer : (session.turn index).answer? index =
        some (.ok (some (Message.Done.encode dump.sequence dump.sender 0))))
      (headed : (session.turn index).headed? index = none)
      (dumped : (session.after (.stepDump index)).dumps[index]? =
        some { found with finished := true })
  | sent (found : Dump) (entry : Entry σ) (page : Page) (next : Nat) (later : Dump)
      (sent : session.Sent index dump found entry page next later)

theorem Reachable.turn (reachable : session.Reachable Balanced)
    (here : session.dumps[index]? = some dump) : session.Turn index dump := by
  have placed := reachable.sound.placed dump (List.mem_of_getElem? here)
  obtain ⟨large, small⟩ := session.engine.settings.messageSize_bounds
  obtain ⟨-, dumped, answer⟩ := step_after here
  cases Dump.stepped reachable.allListable placed large small with
  | spent finished step =>
      rw [step] at dumped answer
      exact .spent finished answer dumped
  | gone mode idle vacant step =>
      rw [step] at answer
      refine .gone mode idle vacant ?_
      simp only [Session.turn, Moment.headed?, Moment.page?, answer]
  | ended found going sought idle step =>
      rw [step] at dumped answer
      have unread : Page.read? (Message.Done.encode dump.sequence dump.sender 0) = none := by
        simp only [Page.read?, Message.Done.readAll_encode]
      refine .ended found going idle sought answer ?_ dumped
      simp only [Session.turn, Moment.headed?, Moment.page?, answer, unread]
  | sent found entry bytes page next going sought there sends step =>
      have sameCursor := (Dump.seek_ok sought).1
      -- What is told is the same whether the message is the last one about the set or not.
      obtain ⟨later, goes, stepped⟩ : ∃ later,
          ((found.place < next ∧ later = { found with cursor := some next }) ∨
            ((∀ element ∈ session.table.elementsFrom entry.storage found.place,
              element.1 < next) ∧ later = found.leave session.table)) ∧
          (dump.step session.table session.engine.settings.messageSize).2 =
            (later, .ok (some bytes)) := by
        obtain ⟨forward, -, sent⟩ | ⟨whole, sent⟩ := sends.goes
        · exact ⟨_, .inl ⟨forward, rfl⟩, by rw [step, sent]⟩
        · exact ⟨_, .inr ⟨whole, rfl⟩, by rw [step, sent]⟩
      rw [stepped] at dumped answer
      have told : (session.turn index).page? index = some page := by
        simp only [Session.turn, Moment.page?, answer, sends.read]
      have named : page.name = entry.name := by
        have name := sends.tells.name
        unfold Dump.shown at name
        split at name <;> exact name
      have lookup : session.table.lookup? page.name.text = some (found.slot, entry) := by
        rw [named]
        exact (Table.NamesDistinct.lookup_iff reachable.namesDistinct).mpr ⟨there, rfl⟩
      refine .sent found entry page next later
        ⟨going, sought, ⟨bytes, answer⟩, told, ?_, sends.tells.elements, dumped, goes⟩
      simp only [Moment.headed?, told, sends.tells.first, sameCursor]
      split
      · exact lookup
      · rfl

theorem Reachable.headed_one (reachable : session.Reachable Balanced)
    (here : session.dumps[index]? = some dump) (mode : dump.mode = .one)
    (idle : dump.cursor = none) (going : dump.finished = false) {entry : Entry σ}
    (there : session.table.get? dump.slot = some entry) :
    (session.turn index).headed? index = some (dump.slot, entry) := by
  have sought := Dump.seek_one mode there
  cases reachable.turn here with
  | spent finished => simp [going] at finished
  | gone one same vacant => simp [there] at vacant
  | ended found unfinished same missed => simp [sought] at missed
  | sent found other page next later sent =>
      have same := sent.sought
      rw [sought] at same
      cases same
      rw [sent.headed, idle]
      rfl

/-- A dump that is in the middle of a set goes on with it. -/
theorem Reachable.goes_on (reachable : session.Reachable Balanced)
    (here : session.dumps[index]? = some dump) (started : dump.cursor.isSome)
    (going : dump.finished = false) :
    ∃ entry page next later, session.table.get? dump.slot = some entry ∧
      session.Sent index dump dump entry page next later := by
  have placed := reachable.sound.placed dump (List.mem_of_getElem? here)
  obtain ⟨entry, there, sought⟩ := placed.seek started
  cases reachable.turn here with
  | spent finished => simp [going] at finished
  | gone mode idle => simp [idle] at started
  | ended found going idle => simp [idle] at started
  | sent found other page next later sent =>
      have same := sent.sought
      rw [sought] at same
      cases same
      exact ⟨entry, page, next, later, there, sent⟩

end NamedSets.Session
