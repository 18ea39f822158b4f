import NamedSets.Proofs.Dump.Chapters
import NamedSets.Proofs.Session.History

namespace NamedSets.Session

variable {σ : Type} [ForeignStorage σ] {session : Session σ} {operation : Operation σ}
  {request : Message.Request} {dump final : Dump} {index : Nat}

omit [ForeignStorage σ] in
/-- The slots that the dump of a request visits: that of the set that it names, or all of them,
those of sets that are listed last behind the others. -/
def dumpedSlots (session : Session σ) (request : Message.Request) : List Nat :=
  match request.setName? with
  | some name => (session.table.find? name.text).toList
  | none => Dump.visited session.table false 0 ++ Dump.visited session.table true 0

/-- Steps in a row are answered by the messages that the dump sends until it is over, and leave
behind the table that sending them leads to. -/
theorem steps_of_sending {limit : Nat} {table after : Table σ} {messages : List Bytes}
    (sending : Dump.Sending limit table dump messages after final)
    (spent : final.finished = true) (here : session.table = table)
    (size : session.engine.settings.messageSize = limit)
    (found : session.dumps[index]? = some dump) :
    session.answers (List.replicate (messages.length + 1) (.stepDump index)) index =
        messages.map (fun bytes => .ok (some bytes)) ++ [.ok none] ∧
      (session.run (List.replicate (messages.length + 1) (.stepDump index))).engine =
        { session.engine with table := after } := by
  induction sending generalizing session with
  | nil table dump =>
      obtain ⟨engine, -, answered⟩ := step_after found
      rw [Dump.step, if_pos spent] at engine answered
      rw [here] at engine
      refine ⟨?_, engine⟩
      rw [List.length_nil, List.replicate_succ, answers_cons, answered]
      rfl
  | @cons table next after dump later final bytes messages first rest ih =>
      obtain ⟨engine, stepped, answered⟩ := step_after found
      rw [here, size, first] at engine stepped answered
      obtain ⟨others, ended⟩ := ih spent (congrArg Engine.table engine) (by rw [engine, ← size]) stepped
      rw [engine] at ended
      refine ⟨?_, ended⟩
      rw [List.length_cons, List.replicate_succ, answers_cons, answered, others]
      rfl

theorem answers_of_sending {limit : Nat} {table after : Table σ} {messages : List Bytes}
    (sending : Dump.Sending limit table dump messages after final)
    (spent : final.finished = true) (here : session.table = table)
    (size : session.engine.settings.messageSize = limit)
    (found : session.dumps[index]? = some dump) :
    session.answers (List.replicate (messages.length + 1) (.stepDump index)) index =
      messages.map (fun bytes => .ok (some bytes)) ++ [.ok none] :=
  (steps_of_sending sending spent here size found).1

omit [ForeignStorage σ] in
/-- The slots to come for a dump that is opened are those that the request asks for. -/
theorem upcoming_opened (started : session.engine.dumpOf request = .ok dump) :
    dump.upcoming session.table = session.dumpedSlots request := by
  obtain ⟨idle, -, -, -, ⟨unnamed, mode, slot⟩ | ⟨name, named, mode, found⟩⟩ :=
    Engine.dumpOf_cases started
  · simp [Dump.upcoming, dumpedSlots, unnamed, mode, idle, slot]
  · have there : session.table.find? name.text = some dump.slot := found
    obtain ⟨entry, -, occupied, -⟩ := Table.lookup_of_find there
    have inside := Table.lt_capacity_of_get occupied
    simp [Dump.upcoming, dumpedSlots, named, mode, idle, there, inside]

/-- A dump that nothing disturbs is complete. Stepped until there is nothing more, it never fails
and answers messages of limited length, each a single page, then the message that ends it, and
then nothing. The pages form one chapter for each set that is asked for, in order. -/
theorem undisturbed_dump (reachable : session.Reachable Balanced)
    (opens : session.Opens operation request dump)
    (room : ∀ slot, session.references slot + 1 < UInt32.size) :
    ∃ (messages : List Bytes) (chapters : List (List Page)),
      (session.after operation).answers
          (List.replicate (messages.length + 2) (.stepDump session.dumps.length))
          session.dumps.length =
        messages.map (fun bytes => .ok (some bytes)) ++ [.ok (some (Message.Done.encode
          request.header.sequence request.header.sender 0)), .ok none] ∧
      Message.Segment.readAll (Message.Done.encode request.header.sequence
          request.header.sender 0) =
        .ok [.done (Message.Done.headerOf request.header.sequence request.header.sender) 0] ∧
      List.Forall₂ (Carries session.engine.settings.messageSize) messages chapters.flatten ∧
      List.Forall₂ (fun slot pages => ∃ entry, session.table.get? slot = some entry ∧
          Chapter request.header.sequence request.header.sender session.table entry pages)
        (session.dumpedSlots request) chapters := by
  obtain ⟨started, opened⟩ := opens.spec
  obtain ⟨idle, going, sequence, sender, asked⟩ := Engine.dumpOf_cases started
  obtain ⟨large, small⟩ := session.engine.settings.messageSize_bounds
  have present (one : dump.mode = .one) (_ : dump.slot < session.table.capacity) :
      ∃ entry, session.table.get? dump.slot = some entry := by
    obtain ⟨-, all, -⟩ | ⟨name, -, -, found⟩ := asked
    · simp [all] at one
    · obtain ⟨entry, -, occupied, -⟩ := Table.lookup_of_find found
      exact ⟨entry, occupied⟩
  obtain ⟨messages, chapters, ended, sending, spent, carried, told⟩ :=
    Dump.sending_chapters reachable.allListable (reachable.sound.room Nat.one_pos room) large small
      going idle present
  rw [sequence, sender] at sending told
  rw [upcoming_opened started] at told
  refine ⟨messages, chapters, ?_, Message.Done.readAll_encode _ _ _, carried, told⟩
  have answers := answers_of_sending sending spent (by rw [opened]; rfl) (by rw [opened]) opens.here
  simpa using answers

def listing : Message.Request where
  header := { length := 28, messageType := 0x607, flags := 0x301, sequence := 5, sender := 9 }
  body := { family := 0, version := 0, resource := 0 }
  command := .list
  arguments := [.protocol protocolVersion]
  raw := []

def sweep : Dump where
  mode := .all
  slot := 0
  cursor := none
  sequence := 5
  sender := 9
  finished := false

theorem shared_opens : shared.Opens (.startDump true listing) listing sweep where
  asks := .startDump true
  opened := by decide +kernel

theorem undisturbed_dump_shared :
    shared.Reachable Balanced ∧ shared.Opens (.startDump true listing) listing sweep ∧
      (∀ slot, shared.references slot + 1 < UInt32.size) ∧
      ∃ (messages : List Bytes) (chapters : List (List Page)),
        (shared.after (.startDump true listing)).answers
            (List.replicate (messages.length + 2) (.stepDump 0)) 0 =
          messages.map (fun bytes => .ok (some bytes)) ++
            [.ok (some (Message.Done.encode 5 9 0)), .ok none] ∧
        List.Forall₂ (Carries 8192) messages chapters.flatten ∧
        List.Forall₂ (fun slot pages => ∃ entry, shared.table.get? slot = some entry ∧
          Chapter 5 9 shared.table entry pages) [0, 1] chapters := by
  have room (slot : Nat) : shared.references slot + 1 < UInt32.size := by
    have few : shared.table.capacity + shared.dumps.length + shared.holds.length + 1 <
        UInt32.size := by decide +kernel
    have bound := shared.references_le slot
    omega
  have visited : shared.dumpedSlots listing = [0, 1] := by decide +kernel
  have size : shared.engine.settings.messageSize = 8192 := by decide +kernel
  obtain ⟨messages, chapters, answers, -, carried, told⟩ :=
    undisturbed_dump shared_reachable shared_opens room
  rw [visited] at told
  rw [size] at carried
  exact ⟨shared_reachable, shared_opens, room, messages, chapters, answers, carried, told⟩

end NamedSets.Session
