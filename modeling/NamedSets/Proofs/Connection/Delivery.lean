import NamedSets.Proofs.Connection.Basic
import NamedSets.Proofs.Connection.Replies
import NamedSets.Proofs.Message.Reports

/-!
# What a connection delivers

The replies to a client are received in the order in which they were queued, and before anything
more of its dump. Of a dump the client receives messages about sets and then the one message that
ends it, whatever happens on the connection and around it in between. Once a dump is over or
abandoned, nothing is left of it, not even a reference.
-/

namespace NamedSets

open Message (Header Request Report scan)

/-! ## Messages of a dump -/

/-- A message of a dump that is about a set, so not one that ends a dump. -/
def Dump.Lists (dump : Dump) (message : Bytes) : Prop :=
  (∃ name, dump.Names name message) ∧
    ∀ sequence sender code, message ≠ Message.Done.encode sequence sender code

theorem Dump.Names.lists {dump : Dump} {name : SetName} {message : Bytes}
    (names : dump.Names name message) : dump.Lists message := by
  refine ⟨⟨name, names⟩, ?_⟩
  rintro sequence sender code rfl
  obtain ⟨header, rest, same, typed, -⟩ := names
  have read := congrArg Header.read? same
  rw [Header.read_encode, Message.Done.encode, Header.read_encode, Option.some.injEq] at read
  rw [← read] at typed
  have other : Message.Done.messageType ≠ Message.Command.list.messageType := by decide
  exact other typed

theorem Dump.Lists.congr {dump later : Dump} {message : Bytes}
    (sequence : later.sequence = dump.sequence) (sender : later.sender = dump.sender)
    (lists : later.Lists message) : dump.Lists message := by
  obtain ⟨⟨name, names⟩, -⟩ := lists
  exact (names.congr sequence sender).lists

namespace Connection

variable {σ : Type} [ForeignStorage σ] {connection : Connection σ} {dump later : Dump} {event : Event σ}
  {events : List (Event σ)}

/-! ## Runs of events -/

def history (connection : Connection σ) : List (Event σ) → List (Connection σ × Event σ)
  | [] => []
  | event :: rest => (connection, event) :: (connection.after event).history rest

def run (connection : Connection σ) : List (Event σ) → Connection σ
  | [] => connection
  | event :: rest => (connection.after event).run rest

def AllFair (connection : Connection σ) (events : List (Event σ)) : Prop :=
  ∀ moment ∈ connection.history events, moment.1.Fair moment.2

def queued : Connection σ × Event σ → List Bytes
  | (connection, .send buffer) => connection.client.replies connection.engine buffer
  | _ => []

def reply? : Connection σ × Event σ → Option Bytes
  | (connection, .recv) => if connection.client.queue = [] then none else connection.received
  | _ => none

def message? : Connection σ × Event σ → Option Bytes
  | (connection, .recv) => if connection.client.queue = [] then connection.received else none
  | _ => none

/-- All that the client receives of its dump in a run. -/
def told (connection : Connection σ) (events : List (Event σ)) : List Bytes :=
  (connection.history events).filterMap message?

def endCode : Except Fault (Option Bytes) → Int32
  | .ok _ => 0
  | .error fault => Report.failure fault

/-- What comes of a dump in a run during which it is not over before the last event. -/
inductive Delivers (connection : Connection σ) (dump : Dump) (events : List (Event σ)) : Prop
  | goes (later : Dump) (pending : (connection.run events).client.dump = some later)
      (sequence : later.sequence = dump.sequence) (sender : later.sender = dump.sender)
      (lists : ∀ message ∈ connection.told events, dump.Lists message)
  | closed (before : List (Event σ)) (last : events = before ++ [.close])
      (gone : (connection.run events).client.dump = none)
      (lists : ∀ message ∈ connection.told events, dump.Lists message)
  | ended (before : List (Event σ)) (last : events = before ++ [.recv])
      (gone : (connection.run events).client.dump = none)
      (pending : Dump) (stood : (connection.run before).client.dump = some pending)
      (messages : List Bytes) (lists : ∀ message ∈ messages, dump.Lists message)
      (told : connection.told events = messages ++ [Message.Done.encode dump.sequence dump.sender
        (endCode ((connection.run before).engine.stepDump pending).2.2)])

/-! ## Receiving -/

theorem recv_queued {message : Bytes} {others : List Bytes}
    (waiting : connection.client.queue = message :: others) :
    connection.received = some message ∧
      connection.after .recv =
        connection.acting (connection.engine, { connection.client with queue := others }) := by
  simp only [received, after, Client.recv, waiting, and_self]

theorem recv_idle (empty : connection.client.queue = [])
    (free : connection.client.dump = none) :
    connection.received = none ∧
      connection.after .recv = connection.acting (connection.engine, connection.client) := by
  simp only [received, after, Client.recv, empty, free, and_self]

variable [ForeignStorage.Contained σ]

/-- A message that is received of a dump is about a set, and the dump goes on, or it ends the
dump. -/
theorem recv_pending (empty : connection.client.queue = [])
    (pending : connection.client.dump = some dump) (going : dump.finished = false) :
    (∃ message later, connection.received = some message ∧ dump.Lists message ∧
      (connection.after .recv).client.dump = some later ∧ later.sequence = dump.sequence ∧
        later.sender = dump.sender) ∨
    (connection.received = some (Message.Done.encode dump.sequence dump.sender
        (endCode (connection.engine.stepDump dump).2.2)) ∧
      (connection.after .recv).client.dump = none) := by
  cases stepped : connection.engine.stepDump dump with
  | mk engine rest =>
      obtain ⟨later, result⟩ := rest
      have outcome : dump.Outcome connection.table later result := by
        have told := dump.step_outcome connection.table connection.engine.settings.messageSize
        have same : (dump.step connection.table connection.engine.settings.messageSize).2 =
            (later, result) := congrArg Prod.snd stepped
        rwa [same] at told
      have addressed := outcome.addressed
      simp only [received, after, acting, Client.recv, empty, pending, stepped]
      cases outcome with
      | spent finished => simp [going] at finished
      | failed found fault =>
          rw [addressed.1, addressed.2]
          exact .inr ⟨rfl, rfl⟩
      | ended found => exact .inr ⟨rfl, rfl⟩
      | told found _ entry bytes _ sought names goes =>
          have unfinished : later.finished = false := by
            rw [Dump.seek_eq sought] at goes
            obtain ⟨next, rfl⟩ | rfl := goes <;> exact going
          refine .inl ⟨bytes, later, rfl, names.lists, ?_, addressed⟩
          simp [unfinished]

/-- The client receives nothing only if nothing is queued and its dump is over. -/
theorem Sound.received_eq_none_iff (sound : connection.Sound) :
    connection.received = none ↔
      connection.client.queue = [] ∧ connection.client.dump = none := by
  cases waiting : connection.client.queue with
  | cons message others => simp [(recv_queued waiting).1]
  | nil =>
      cases pending : connection.client.dump with
      | none => simp [(recv_idle waiting pending).1]
      | some dump =>
          obtain ⟨message, later, received, -⟩ | ⟨received, -⟩ :=
            recv_pending waiting pending (sound.going dump pending) <;> simp [received]

/-! ## Replies in order -/

omit [ForeignStorage.Contained σ] in
theorem queue_after (stays : event ≠ .close) :
    connection.client.queue ++ queued (connection, event) =
      (reply? (connection, event)).toList ++ (connection.after event).client.queue := by
  cases event with
  | send buffer =>
      exact (Client.queue_send connection.client connection.engine buffer).symm
  | recv =>
      cases waiting : connection.client.queue with
      | cons message others =>
          obtain ⟨received, after⟩ := recv_queued waiting
          simp [queued, reply?, waiting, received, after, acting]
      | nil =>
          cases pending : connection.client.dump with
          | none => simp [queued, reply?, waiting, (recv_idle waiting pending).2, acting]
          | some dump =>
              simp [queued, reply?, waiting, after, acting, Client.recv, pending]
  | close => exact absurd rfl stays
  | other operation => simp [queued, reply?, after]

omit [ForeignStorage.Contained σ] in
/-- What was queued is what was received of it and what is left, in order. -/
theorem queue_run (stays : .close ∉ events) :
    connection.client.queue ++ (connection.history events).flatMap queued =
      (connection.history events).filterMap reply? ++ (connection.run events).client.queue := by
  induction events generalizing connection with
  | nil => simp [history, run]
  | cons event rest ih =>
      simp only [List.mem_cons, not_or] at stays
      obtain ⟨first, others⟩ := stays
      have received : (connection.history (event :: rest)).filterMap reply? =
          (reply? (connection, event)).toList ++
            ((connection.after event).history rest).filterMap reply? := by
        rw [history, List.filterMap_cons]
        cases reply? (connection, event) <;> rfl
      rw [received, history, List.flatMap_cons, ← List.append_assoc, queue_after (Ne.symm first),
        List.append_assoc, ih others, List.append_assoc]
      rfl

/-! ## A dump in a run -/

omit [ForeignStorage.Contained σ] in
theorem told_cons (connection : Connection σ) (event : Event σ) (rest : List (Event σ)) :
    connection.told (event :: rest) =
      (message? (connection, event)).toList ++ (connection.after event).told rest := by
  rw [told, history, List.filterMap_cons]
  cases message? (connection, event) <;> rfl

/-- What one event does to a dump. -/
theorem Sound.delivers_one (sound : connection.Sound)
    (pending : connection.client.dump = some dump) (event : Event σ) :
    connection.Delivers dump [event] := by
  have quiet (silent : message? (connection, event) = none) :
      ∀ message ∈ connection.told [event], dump.Lists message := by
    intro message among
    rw [told_cons, silent] at among
    exact (List.not_mem_nil among).elim
  cases event with
  | send buffer =>
      refine .goes dump ?_ rfl rfl (quiet rfl)
      rw [run, after_send]
      exact Client.dump_receiveAll pending _ _
  | recv =>
      cases waiting : connection.client.queue with
      | cons message others =>
          refine .goes dump ?_ rfl rfl (quiet (by simp [message?, waiting]))
          rw [run, (recv_queued waiting).2]
          exact pending
      | nil =>
          have message : message? (connection, .recv) = connection.received := if_pos waiting
          obtain ⟨bytes, later, received, lists, goes, sequence, sender⟩ | ⟨received, gone⟩ :=
            recv_pending waiting pending (sound.going dump pending)
          · refine .goes later goes sequence sender fun other among => ?_
            rw [told_cons, message, received] at among
            rw [List.mem_singleton.mp among]
            exact lists
          · refine .ended [] rfl gone dump pending [] (fun _ => nofun) ?_
            rw [told_cons, message, received]
            rfl
  | close => exact .closed [] rfl rfl (quiet rfl)
  | other operation => exact .goes dump pending rfl rfl (quiet rfl)

omit [ForeignStorage.Contained σ] in
/-- What comes of a dump after an event that it has outlasted. -/
theorem Delivers.cons {rest : List (Event σ)}
    (heard : ∀ message ∈ (message? (connection, event)).toList, dump.Lists message)
    (sequence : later.sequence = dump.sequence) (sender : later.sender = dump.sender)
    (others : (connection.after event).Delivers later rest) :
    connection.Delivers dump (event :: rest) := by
  have whole {messages : List Bytes} (lists : ∀ message ∈ messages, later.Lists message) :
      ∀ message ∈ (message? (connection, event)).toList ++ messages, dump.Lists message :=
    List.forall_mem_append.mpr
      ⟨heard, fun message among => (lists message among).congr sequence sender⟩
  cases others with
  | goes last pending sameSequence sameSender lists =>
      refine .goes last pending (sameSequence.trans sequence) (sameSender.trans sender) ?_
      rw [told_cons]
      exact whole lists
  | closed before ending gone lists =>
      refine .closed (event :: before) (by rw [ending]; rfl) gone ?_
      rw [told_cons]
      exact whole lists
  | ended before ending gone pending stood messages lists told =>
      refine .ended (event :: before) (by rw [ending]; rfl) gone pending stood
        ((message? (connection, event)).toList ++ messages) (whole lists) ?_
      rw [told_cons, told, List.append_assoc, sequence, sender]
      rfl

/-- A dump goes on until the event that ends it. The induction is on the events: after each of
them but the last the dump is still there, with the receiver that it was opened for. -/
theorem Sound.delivers (sound : connection.Sound) (pending : connection.client.dump = some dump)
    (fair : connection.AllFair events)
    (lasts : ∀ moment ∈ connection.history events, moment.1.client.dump.isSome) :
    connection.Delivers dump events := by
  induction events generalizing connection dump with
  | nil => exact .goes dump pending rfl rfl (fun _ => nofun)
  | cons event rest ih =>
      have last (gone : (connection.after event).client.dump = none) : rest = [] := by
        cases rest with
        | nil => rfl
        | cons next others =>
            have still := lasts (connection.after event, next) (by simp [history])
            simp [gone] at still
      cases sound.delivers_one pending event with
      | closed before _ gone =>
          cases last gone
          exact sound.delivers_one pending event
      | ended before _ gone =>
          cases last gone
          exact sound.delivers_one pending event
      | goes later stays sequence sender lists =>
          have heard : ∀ message ∈ (message? (connection, event)).toList, dump.Lists message := by
            simpa [told_cons, told, history] using lists
          refine .cons heard sequence sender (ih (sound.after (fair _ List.mem_cons_self)) stays ?_ ?_)
          · exact fun moment among => fair moment (List.mem_cons_of_mem _ among)
          · exact fun moment among => lasts moment (List.mem_cons_of_mem _ among)

/-! ## What is delivered -/

def busy (request : Request) : Bytes := (Report.answer request (some .dumpInProgress)).encode

omit [ForeignStorage.Contained σ] in
/-- A request for a dump is refused as long as another dump is not over, wherever in a buffer it
stands. -/
theorem after_busy {buffer : Bytes} {done rest : List (Header × Bytes)} {frame : Header × Bytes}
    {request : Request} (split : (scan buffer).1 = done ++ frame :: rest)
    (flagged : frame.1.isRequest) (read : Request.read frame.1 frame.2 = .ok request)
    (asked : request.command.isDump) (pending : (connection.receiving done).client.dump.isSome) :
    connection.after (.send buffer) = ((connection.receiving done).acting
      ((connection.receiving done).engine,
        (connection.receiving done).client.enqueue [busy request])).receiving rest := by
  have refused : (connection.receiving done).client.receive (connection.receiving done).engine
      frame.1 frame.2 = ((connection.receiving done).engine,
        (connection.receiving done).client.enqueue [busy request]) := by
    simp only [Client.receive, flagged, if_true, read, Client.request, asked, pending,
      Bool.and_self, busy]
  rw [after_send, split, receiving_append, ← List.singleton_append, receiving_append, ← refused]
  rfl

/-- What is promised to a client about its replies and its dumps. -/
structure Delimited (connection : Connection σ) : Prop where
  /-- Nothing is received only if there is nothing to receive. -/
  silent : connection.received = none ↔
    connection.client.queue = [] ∧ connection.client.dump = none
  /-- Replies are received in order, and all of them before a message of a dump. -/
  ordered : ∀ events, .close ∉ events →
    connection.client.queue ++ (connection.history events).flatMap queued =
      (connection.history events).filterMap reply? ++ (connection.run events).client.queue
  /-- A request for a second dump is answered by one report and leaves the first one as it is. -/
  refused : ∀ buffer done frame rest request, (scan buffer).1 = done ++ frame :: rest →
    frame.1.isRequest → Request.read frame.1 frame.2 = .ok request → request.command.isDump →
    (connection.receiving done).client.dump.isSome →
    Report.code? (busy request) = some (-16) ∧
      connection.after (.send buffer) = ((connection.receiving done).acting
        ((connection.receiving done).engine,
          (connection.receiving done).client.enqueue [busy request])).receiving rest
  kept : ∀ dump, connection.client.dump = some dump →
    ∀ buffer, (connection.after (.send buffer)).client.dump = some dump
  /-- A dump is for whoever has sent the request for it. -/
  opened : connection.client.dump = none → ∀ buffer dump,
    (connection.after (.send buffer)).client.dump = some dump →
    ∃ frame ∈ (scan buffer).1, ∃ request, Request.read frame.1 frame.2 = .ok request ∧
      request.command.isDump ∧ dump.cursor = none ∧
        dump.sequence = request.header.sequence ∧ dump.sender = request.header.sender
  /-- A dump is delivered until it ends. -/
  delivered : ∀ dump events, connection.client.dump = some dump → connection.AllFair events →
    (∀ moment ∈ connection.history events, moment.1.client.dump.isSome) →
    connection.Delivers dump events
  abandoned : (connection.after .close).client.queue = [] ∧
    (connection.after .close).client.dump = none
  /-- Besides the references of everybody else there is only that of a dump which is not over. -/
  counted : ∀ slot,
    match connection.table.get? slot with
    | some entry => entry.references.toNat = connection.table.referrers slot +
        connection.others.dumpsAt slot + connection.others.holds.count slot +
          connection.held.count slot
    | none => connection.table.referrers slot + connection.others.dumpsAt slot +
        connection.others.holds.count slot + connection.held.count slot = 0

omit [ForeignStorage σ] [ForeignStorage.Contained σ] in
theorem Sound.counted (sound : connection.Sound) (slot : Nat) :
    match connection.table.get? slot with
    | some entry => entry.references.toNat = connection.table.referrers slot +
        connection.others.dumpsAt slot + connection.others.holds.count slot +
          connection.held.count slot
    | none => connection.table.referrers slot + connection.others.dumpsAt slot +
        connection.others.holds.count slot + connection.held.count slot = 0 := by
  have total : connection.merged.references slot = connection.table.referrers slot +
      connection.others.dumpsAt slot + connection.others.holds.count slot +
        connection.held.count slot := by
    rw [Session.references, merged, List.count_append, ← Nat.add_assoc]
    rfl
  rw [← total]
  exact sound.accounts.counted slot

/-- However sending, receiving and closing are interleaved with what others do, the dumps of a
connection are well delimited. -/
theorem dumps_delimited (reachable : connection.Reachable) : connection.Delimited where
  silent := reachable.sound.received_eq_none_iff
  ordered _ stays := queue_run stays
  refused buffer done frame rest request split flagged read asked pending :=
    ⟨Report.code_encode rfl, after_busy split flagged read asked pending⟩
  kept dump pending buffer := by
    rw [after_send]
    exact Client.dump_receiveAll pending _ _
  opened free buffer dump opened := by
    rw [after_send] at opened
    exact Client.receiveAll_opens free opened
  delivered dump events pending fair lasts := reachable.sound.delivers pending fair lasts
  abandoned := ⟨rfl, rfl⟩
  counted := reachable.sound.counted

/-! ## A request for a second dump -/

open Session (shared shared_reachable)

def asking (sequence : UInt32) : Request :=
  .compose .list 0x301 sequence 9 [.protocol protocolVersion]

def started : Connection Empty :=
  ({ client := .connect true, others := shared } : Connection Empty).after (.send (asking 1).raw)

theorem started_reachable : started.Reachable := by
  have new : Reachable { client := .connect true, others := shared } :=
    .connect true (shared_reachable.mono fun _ _ balanced => balanced.fair)
  exact new.after _ (Fair.of_few nofun (by decide +kernel))

def sweep : Dump where
  mode := .all
  slot := 0
  cursor := none
  sequence := 1
  sender := 9
  finished := false

/-- The second request is answered first. Then the dump goes on, and it ends early because somebody
else removes a set that it has not come to. -/
theorem dumps_delimited_started :
    let events : List (Event Empty) :=
      [.send (asking 2).raw, .recv, .recv, .other (.destroy "l"), .recv]
    started.Reachable ∧ started.Delimited ∧ started.client.dump = some sweep ∧
      started.AllFair events ∧
      (∀ moment ∈ started.history events, moment.1.client.dump.isSome) ∧
      started.Delivers sweep events ∧
      (started.history events).filterMap reply? = [busy (asking 2)] ∧
      (started.told events).length = 2 ∧ (started.run events).client.dump = none := by
  intro events
  have delimited := dumps_delimited started_reachable
  have pending : started.client.dump = some sweep := by decide +kernel
  have fair : started.AllFair events := by
    simp only [AllFair, events, history, List.forall_mem_cons]
    refine ⟨?_, ?_, ?_, ⟨?_, fun _ same => nomatch same⟩, ?_, List.forall_mem_nil _⟩
    · exact Fair.of_few (fun _ same => nomatch same) (by decide +kernel)
    · exact Fair.of_few (fun _ same => nomatch same) (by decide +kernel)
    · exact Fair.of_few (fun _ same => nomatch same) (by decide +kernel)
    · exact Session.Fair.of_few (fun _ same => nomatch same) (by decide +kernel)
    · exact Fair.of_few (fun _ same => nomatch same) (by decide +kernel)
  have lasts : ∀ moment ∈ started.history events, moment.1.client.dump.isSome := by
    simp only [events, history, List.forall_mem_cons]
    decide +kernel
  exact ⟨started_reachable, delimited, pending, fair, lasts,
    delimited.delivered sweep events pending fair lasts, by decide +kernel, by decide +kernel,
    by decide +kernel⟩

end Connection

end NamedSets
