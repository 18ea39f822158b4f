import NamedSets.Proofs.Client
import NamedSets.Proofs.Dump.Outcomes
import NamedSets.Proofs.Session.Soundness

/-!
# Connections

A client on an engine that others use as well. What the client sends, receives and abandons and
what the others do come in any order. The reference that the dump of the client holds is accounted
for like one that a user holds.
-/

namespace NamedSets

open Message (Header Request scan)
open Table (SameLabels)

variable {σ : Type}

inductive Event (σ : Type) where
  | send (buffer : Bytes)
  | recv
  | close
  | other (operation : Operation σ)

structure Connection (σ : Type) where
  client : Client
  /-- The engine, with the dumps and the references of everybody else. -/
  others : Session σ

namespace Connection

def engine (connection : Connection σ) : Engine σ := connection.others.engine

def table (connection : Connection σ) : Table σ := connection.engine.table

def held (connection : Connection σ) : List Nat :=
  (connection.client.dump.bind Dump.heldSlot?).toList

/-- The session of everybody, in which the reference of the client is one of a user. -/
def merged (connection : Connection σ) : Session σ :=
  { connection.others with holds := connection.others.holds ++ connection.held }

def acting (connection : Connection σ) (outcome : Engine σ × Client) : Connection σ where
  client := outcome.2
  others := { connection.others with engine := outcome.1 }

variable [ForeignStorage σ]

def receiving (connection : Connection σ) (frames : List (Header × Bytes)) : Connection σ :=
  connection.acting (connection.client.receiveAll connection.engine frames)

def received (connection : Connection σ) : Option Bytes :=
  (connection.client.recv connection.engine).2.2

def after (connection : Connection σ) : Event σ → Connection σ
  | .send buffer =>
      let (engine, client, _) := connection.client.send connection.engine buffer
      connection.acting (engine, client)
  | .recv =>
      let (engine, client, _) := connection.client.recv connection.engine
      connection.acting (engine, client)
  | .close => connection.acting (connection.client.close connection.engine)
  | .other operation => { connection with others := connection.others.after operation }

def FairTo (connection : Connection σ) (frames : List (Header × Bytes)) : Prop :=
  ∀ done frame rest, frames = done ++ frame :: rest → frame.1.isRequest →
    ∀ request, Request.read frame.1 frame.2 = .ok request →
      (connection.receiving done).merged.Fair
        (.request (connection.receiving done).client.privileged request)

/-- What a fair use of a connection respects: the requests of the client and the operations of
others are those of a fair use of the engine, others give back only references of their own, and
there are never 2³² references to a slot, that included which a message of the dump takes. -/
def Fair (connection : Connection σ) : Event σ → Prop
  | .send buffer => connection.FairTo (scan buffer).1
  | .recv => connection.client.queue = [] → connection.client.dump.isSome →
      ∀ slot, connection.merged.references slot + 1 < UInt32.size
  | .close => True
  | .other operation => connection.merged.Fair operation ∧
      ∀ slot, operation = .release slot → slot ∈ connection.others.holds

inductive Reachable : Connection σ → Prop
  | connect (privileged : Bool) {others : Session σ} (reachable : others.Reachable Session.Fair) :
      Reachable { client := .connect privileged, others }
  | after {connection : Connection σ} (reachable : connection.Reachable) (event : Event σ)
      (fair : connection.Fair event) : Reachable (connection.after event)

theorem after_send (connection : Connection σ) (buffer : Bytes) :
    connection.after (.send buffer) = connection.receiving (scan buffer).1 := by
  simp only [after, Client.send_eq, receiving]

theorem receiving_append (connection : Connection σ) (frames others : List (Header × Bytes)) :
    connection.receiving (frames ++ others) = (connection.receiving frames).receiving others := by
  simp only [receiving, Client.receiveAll_append]
  rfl

/-! ## Few references -/

theorem capacity_receiving (connection : Connection σ) (frames : List (Header × Bytes)) :
    (connection.receiving frames).table.capacity = connection.table.capacity := by
  induction frames generalizing connection with
  | nil => rfl
  | cons frame frames ih =>
      have handled (request : Request) :
          (connection.client.request connection.engine request).1.table.capacity =
            connection.table.capacity := by
        have change := connection.engine.handle_change connection.client.privileged request
        unfold Client.request
        split
        · rfl
        · split <;> rename_i answered <;> rw [answered] at change <;>
            exact change.course.reform.capacity
      have first : (connection.receiving [frame]).table.capacity = connection.table.capacity := by
        change (connection.client.receive connection.engine frame.1 frame.2).1.table.capacity = _
        unfold Client.receive
        split
        · split
          · exact handled _
          · rfl
        · rfl
      rw [← List.singleton_append, receiving_append, ih, first]

omit [ForeignStorage σ] in
theorem length_holds_merged (connection : Connection σ) :
    connection.merged.holds.length ≤ connection.others.holds.length + 1 := by
  have single : connection.held.length ≤ 1 := by
    rw [held]
    cases connection.client.dump.bind Dump.heldSlot? <;> simp
  rw [merged, List.length_append]
  omega

/-- What the client does is fair as long as there are not too many sets, dumps and references. -/
theorem Fair.of_few {connection : Connection σ} {event : Event σ}
    (own : ∀ operation, event ≠ .other operation)
    (few : connection.table.capacity + connection.others.dumps.length +
      connection.others.holds.length + 3 < UInt32.size) : connection.Fair event := by
  cases event with
  | send buffer =>
      intro done frame rest _ _ request _
      refine Session.Fair.of_few nofun ?_
      have slots := connection.capacity_receiving done
      have holds := (connection.receiving done).length_holds_merged
      have taken := Operation.taken_le_one
        (.request (connection.receiving done).client.privileged request : Operation σ)
      change (connection.receiving done).table.capacity + connection.others.dumps.length +
        (connection.receiving done).merged.holds.length + _ + 1 < _
      change _ ≤ connection.others.holds.length + 1 at holds
      omega
  | recv =>
      intro _ _ slot
      have bound := connection.merged.references_le slot
      have holds := connection.length_holds_merged
      change _ ≤ connection.table.capacity + connection.others.dumps.length + _ at bound
      omega
  | close => trivial
  | other operation => exact absurd rfl (own operation)

/-! ## Sound connections -/

/-- The accounts of everybody are sound, and the dump of the client is not over and stands at a set
that its pass visits. -/
structure Sound (connection : Connection σ) : Prop where
  accounts : connection.merged.Sound False
  going : ∀ dump, connection.client.dump = some dump → dump.finished = false
  placed : ∀ dump, connection.client.dump = some dump → dump.Placed connection.table

variable {connection : Connection σ} {dump later : Dump} {table : Table σ} {client : Client}

omit [ForeignStorage σ] in
theorem outside_merged (connection : Connection σ) :
    connection.merged.outside = connection.others.outside ++ connection.held := by
  simp only [Session.outside, merged, List.append_assoc]

omit [ForeignStorage σ] in
theorem Sound.placed_after (sound : connection.Sound) (keeps : connection.table.Keeps table) :
    ∀ dump, connection.client.dump = some dump → dump.Placed table := by
  intro dump pending
  refine (sound.placed dump pending).of_keeps keeps fun entry there started unused => ?_
  refine (sound.accounts.table.unreferenced there unused).2 ?_
  obtain ⟨cursor, started⟩ := Option.isSome_iff_exists.mp started
  rw [outside_merged]
  exact List.mem_append_right _ (by simp [held, pending, Dump.heldSlot?, started])

/-! ## What others do -/

/-- What others do does not depend on the reference of the client. -/
theorem merged_other {operation : Operation σ}
    (released : ∀ slot, operation = .release slot → slot ∈ connection.others.holds) :
    (connection.after (.other operation)).merged = connection.merged.after operation := by
  have holding (outcome : Table σ × Option Nat) :
      ({ connection.others.holding outcome with
        holds := (connection.others.holding outcome).holds ++ connection.held } : Session σ) =
        connection.merged.holding outcome := by
    simp only [Session.holding, merged, List.append_assoc]
    rfl
  cases operation with
  | request privileged request =>
      simp only [after, merged, held, Session.after]
      split <;> rfl
  | startDump privileged request =>
      simp only [after, merged, held, Session.after]
      split <;> rfl
  | stepDump index | endDump index =>
      simp only [after, merged, held, Session.after]
      split <;> rfl
  | register type =>
      simp only [after, merged, held, Session.after]
      split <;> rfl
  | unregister name family revision =>
      simp only [after, merged, held, Session.after]
      split <;> rfl
  | holdByName name => exact holding _
  | holdById slot => exact holding _
  | release slot =>
      have mine := List.erase_append_left connection.held (released slot rfl)
      simp only [after, merged, Session.after, mine]
      rfl
  | _ => rfl

theorem Sound.other (sound : connection.Sound) {operation : Operation σ}
    (fair : connection.merged.Fair operation)
    (released : ∀ slot, operation = .release slot → slot ∈ connection.others.holds) :
    (connection.after (.other operation)).Sound where
  accounts := by
    rw [merged_other released]
    exact sound.accounts.after_fair fair False.elim
  going := sound.going
  placed := by
    apply sound.placed_after
    have keeps := (connection.others.after_reform operation).keeps
    exact keeps

/-! ## What the client does -/

omit [ForeignStorage σ] in
/-- The dump of the client may be replaced if the references of the others stay the same. -/
theorem Sound.replaceDump (sound : connection.Sound) (pending : connection.client.dump = some dump)
    (step : connection.table.Sound (dump.heldSlot?.toList ++ connection.others.outside) False →
      table.Sound (later.heldSlot?.toList ++ connection.others.outside) False ∧
        later.Placed table)
    (same : SameLabels connection.table table)
    (held : client.dump.bind Dump.heldSlot? = later.heldSlot?)
    (going : ∀ other, client.dump = some other → other = later ∧ other.finished = false) :
    (connection.acting ({ connection.engine with table }, client)).Sound := by
  have before := sound.accounts.table
  rw [outside_merged, Connection.held, pending, Option.bind_some] at before
  obtain ⟨accounts, placed⟩ := step (before.perm List.perm_append_comm)
  refine ⟨⟨False.elim, ?_, ?_⟩, fun other now => (going other now).2, ?_⟩
  · rw [outside_merged, Connection.held]
    change table.Sound (_ ++ (client.dump.bind Dump.heldSlot?).toList) False
    rw [held]
    exact accounts.perm List.perm_append_comm
  · intro other present
    exact (sound.accounts.placed other present).of_sameLabels same
  · intro other now
    rw [(going other now).1]
    exact placed

omit [ForeignStorage σ] in
/-- The client may change as long as it holds the same reference and its dump is the same or a
new one. -/
theorem Sound.withClient (sound : connection.Sound)
    (held : client.dump.bind Dump.heldSlot? = connection.client.dump.bind Dump.heldSlot?)
    (dumps : ∀ dump, client.dump = some dump → connection.client.dump = some dump ∨
      dump.cursor = none ∧ dump.finished = false) :
    (connection.acting (connection.engine, client)).Sound where
  accounts := by
    have same : (connection.acting (connection.engine, client)).held = connection.held :=
      congrArg Option.toList held
    have unchanged : (connection.acting (connection.engine, client)).merged = connection.merged := by
      rw [merged, same]
      rfl
    rw [unchanged]
    exact sound.accounts
  going dump pending := (dumps dump pending).elim (sound.going dump) And.right
  placed dump pending :=
    (dumps dump pending).elim (sound.placed dump) fun new => .of_cursor_eq_none new.1

theorem Sound.request (sound : connection.Sound) {request : Request}
    (fair : connection.merged.Fair (.request connection.client.privileged request)) :
    (connection.acting (connection.client.request connection.engine request)).Sound := by
  have accounts := sound.accounts.after_fair fair False.elim
  have keeps := (connection.merged.after_reform
    (.request connection.client.privileged request)).keeps
  simp only [Session.after] at accounts keeps
  unfold Client.request
  split
  · exact sound.withClient rfl fun _ => .inl
  · rename_i free
    cases answered : connection.engine.handle connection.client.privileged request with
    | mk changed rest =>
        have same : connection.merged.engine.handle connection.client.privileged request =
            (changed, rest) := answered
        obtain ⟨echoed, messages | dump⟩ := rest
        · rw [same] at accounts keeps
          exact ⟨accounts, sound.going, sound.placed_after keeps⟩
        · obtain ⟨unchanged, started, asked⟩ := Engine.handle_dumpOf (congrArg (·.2.2) answered)
          rw [answered] at unchanged
          subst unchanged
          obtain ⟨idle, going, -⟩ := Engine.dumpOf_cases started
          have none : connection.client.dump = none := by simpa [asked] using free
          refine sound.withClient (by simp [none, Dump.heldSlot?, idle]) fun other new => ?_
          cases new
          exact .inr ⟨idle, going⟩

theorem Sound.receive (sound : connection.Sound) {frame : Header × Bytes}
    (fair : frame.1.isRequest → ∀ request, Request.read frame.1 frame.2 = .ok request →
      connection.merged.Fair (.request connection.client.privileged request)) :
    (connection.acting
      (connection.client.receive connection.engine frame.1 frame.2)).Sound := by
  unfold Client.receive
  split
  · rename_i flagged
    split
    · rename_i request read
      exact sound.request (fair flagged request read)
    · exact sound.withClient rfl fun _ => .inl
  · exact sound.withClient rfl fun _ => .inl

/-- Frames are carried out one by one. -/
theorem Sound.receiving (sound : connection.Sound) {frames : List (Header × Bytes)}
    (fair : connection.FairTo frames) : (connection.receiving frames).Sound := by
  induction frames generalizing connection with
  | nil => exact sound
  | cons frame frames ih =>
      have first : (connection.receiving [frame]).Sound := sound.receive (fair [] frame frames rfl)
      rw [← List.singleton_append, receiving_append]
      refine ih first fun done next rest split flagged request read => ?_
      rw [← receiving_append]
      exact fair (frame :: done) next rest (by rw [split]; rfl) flagged request read

theorem Sound.close (sound : connection.Sound) : (connection.after .close).Sound := by
  simp only [after, Client.close]
  split
  · rename_i dump pending
    refine sound.replaceDump pending dump.release_sound
      (.of_edits (dump.edits_release connection.table : Table.Edits .add _ _)) ?_ nofun
    obtain ⟨idle, released⟩ | ⟨-, released⟩ := dump.release_cases connection.table
    · simp [released, Dump.heldSlot?, idle]
    · simp [released, Dump.heldSlot?]
  · rename_i free
    exact sound.withClient (by rw [free]) nofun

variable [ForeignStorage.Contained σ]

theorem Sound.recv (sound : connection.Sound) (fair : connection.Fair .recv) :
    (connection.after .recv).Sound := by
  simp only [after, Client.recv]
  split
  · exact sound.withClient rfl fun _ => .inl
  · rename_i empty free
    exact sound.withClient rfl fun _ => .inl
  · rename_i dump empty pending
    have room := sound.accounts.room Nat.one_pos (fair empty (by rw [pending]; rfl))
    have placed := sound.placed dump pending
    have going := sound.going dump pending
    have outcome := dump.step_outcome connection.table connection.engine.settings.messageSize
    have idle := outcome.idle going placed
    refine sound.replaceDump pending
      (fun before => dump.step_sound _ before placed room)
      (.of_edits (dump.edits_step connection.table _ : Table.Edits .add _ _)) ?_ ?_
    · split
      · rename_i finished
        exact (congrArg (Option.map _) (idle finished)).symm
      · rfl
    · intro other now
      split at now
      · contradiction
      · rename_i goes
        cases now
        exact ⟨rfl, Bool.eq_false_iff.mpr goes⟩

theorem Sound.after (sound : connection.Sound) {event : Event σ} (fair : connection.Fair event) :
    (connection.after event).Sound := by
  cases event with
  | send buffer =>
      rw [after_send]
      exact sound.receiving fair
  | recv => exact sound.recv fair
  | close => exact sound.close
  | other operation => exact sound.other fair.1 fair.2

theorem Reachable.sound (reachable : connection.Reachable) : connection.Sound := by
  induction reachable with
  | @connect privileged others reachable =>
      refine ⟨?_, nofun, nofun⟩
      have same : merged { client := .connect privileged, others } = others := by
        simp only [merged, held, Client.connect, Option.bind_none, Option.toList_none,
          List.append_nil]
      rw [same]
      exact reachable.sound_fair
  | after reachable event fair sound => exact sound.after fair

end Connection

end NamedSets
