import NamedSets.Proofs.Client
import NamedSets.Proofs.Engine.Changes

namespace NamedSets.Client

open Message (Header Request)

variable {σ : Type} [ForeignStorage σ] {client : Client} {engine : Engine σ} {dump : Dump}

def behind (client : Client) (earlier : List Bytes) : Client :=
  { client with queue := earlier ++ client.queue }

omit [ForeignStorage σ] in
theorem enqueue_behind (client : Client) (earlier messages : List Bytes) :
    (client.behind earlier).enqueue messages = (client.enqueue messages).behind earlier := by
  simp only [enqueue, behind, List.append_assoc]

theorem request_behind (client : Client) (engine : Engine σ) (asked : Request)
    (earlier : List Bytes) :
    (client.behind earlier).request engine asked =
      ((client.request engine asked).1, (client.request engine asked).2.behind earlier) := by
  have same : (client.behind earlier).dump = client.dump ∧
      (client.behind earlier).privileged = client.privileged := ⟨rfl, rfl⟩
  simp only [request, same]
  split
  · rw [enqueue_behind]
  · split
    · rw [enqueue_behind]
    · rfl

theorem receive_behind (client : Client) (engine : Engine σ) (header : Header) (payload : Bytes)
    (earlier : List Bytes) :
    (client.behind earlier).receive engine header payload =
      ((client.receive engine header payload).1,
        (client.receive engine header payload).2.behind earlier) := by
  simp only [receive]
  split
  · split
    · exact request_behind client engine _ earlier
    · simp only [enqueue_behind]
  · rfl

/-- Frames are carried out alike whatever is queued, and their replies are queued behind it. -/
theorem receiveAll_behind (client : Client) (engine : Engine σ) (frames : List (Header × Bytes))
    (earlier : List Bytes) :
    (client.behind earlier).receiveAll engine frames =
      ((client.receiveAll engine frames).1, (client.receiveAll engine frames).2.behind earlier) := by
  induction frames generalizing client engine with
  | nil => rfl
  | cons frame frames ih =>
      simp only [receiveAll, List.foldl_cons, receive_behind] at ih ⊢
      exact ih _ _

/-- What a client is replied to a buffer: what this leaves in an empty queue. -/
def replies (client : Client) (engine : Engine σ) (buffer : Bytes) : List Bytes :=
  (Client.send { client with queue := [] } engine buffer).2.1.queue

theorem queue_send (client : Client) (engine : Engine σ) (buffer : Bytes) :
    (client.send engine buffer).2.1.queue = client.queue ++ client.replies engine buffer := by
  have whole : client = ({ client with queue := [] } : Client).behind client.queue := by
    simp [behind]
  rw [replies, send_eq, send_eq]
  conv_lhs => rw [whole, receiveAll_behind]
  rfl

theorem dump_request (pending : client.dump = some dump) (engine : Engine σ) (asked : Request) :
    (client.request engine asked).2.dump = some dump := by
  unfold request
  split
  · exact pending
  · rename_i free
    split
    · exact pending
    · rename_i answered
      obtain ⟨-, -, isDump⟩ := Engine.handle_dumpOf (congrArg (·.2.2) answered)
      simp [isDump, pending] at free

theorem dump_receive (pending : client.dump = some dump) (engine : Engine σ) (header : Header)
    (payload : Bytes) : (client.receive engine header payload).2.dump = some dump := by
  unfold receive
  split
  · split
    · exact dump_request pending engine _
    · exact pending
  · exact pending

/-- Nothing that a client sends touches a dump that is not over. -/
theorem dump_receiveAll (pending : client.dump = some dump) (engine : Engine σ)
    (frames : List (Header × Bytes)) : (client.receiveAll engine frames).2.dump = some dump := by
  induction frames generalizing client engine with
  | nil => exact pending
  | cons frame frames ih => exact ih (dump_receive pending engine frame.1 frame.2) _

theorem request_opens (free : client.dump = none) {asked : Request}
    (opened : (client.request engine asked).2.dump = some dump) :
    asked.command.isDump ∧ dump.cursor = none ∧ dump.sequence = asked.header.sequence ∧
      dump.sender = asked.header.sender := by
  unfold request at opened
  split at opened
  · simp [free, enqueue] at opened
  · split at opened
    · simp [free, enqueue] at opened
    · rename_i answered
      obtain ⟨-, started, isDump⟩ := Engine.handle_dumpOf (congrArg (·.2.2) answered)
      obtain ⟨idle, -, sequence, sender, -⟩ := Engine.dumpOf_cases started
      cases opened
      exact ⟨isDump, idle, sequence, sender⟩

theorem receive_opens (free : client.dump = none) {header : Header} {payload : Bytes}
    (opened : (client.receive engine header payload).2.dump = some dump) :
    ∃ asked, Request.read header payload = .ok asked ∧ asked.command.isDump ∧
      dump.cursor = none ∧ dump.sequence = asked.header.sequence ∧
        dump.sender = asked.header.sender := by
  unfold receive at opened
  split at opened
  · split at opened
    · rename_i asked read
      exact ⟨asked, read, request_opens free opened⟩
    · simp [enqueue, free] at opened
  · simp [free] at opened

/-- A dump that a client has got is one that a request among its frames asks for. -/
theorem receiveAll_opens (free : client.dump = none) {frames : List (Header × Bytes)}
    (opened : (client.receiveAll engine frames).2.dump = some dump) :
    ∃ frame ∈ frames, ∃ asked, Request.read frame.1 frame.2 = .ok asked ∧
      asked.command.isDump ∧ dump.cursor = none ∧ dump.sequence = asked.header.sequence ∧
        dump.sender = asked.header.sender := by
  induction frames generalizing client engine with
  | nil => simp [receiveAll, free] at opened
  | cons frame frames ih =>
      cases now : (client.receive engine frame.1 frame.2).2.dump with
      | none =>
          obtain ⟨other, among, asked⟩ := ih now opened
          exact ⟨other, List.mem_cons_of_mem _ among, asked⟩
      | some first =>
          cases (dump_receiveAll now _ frames).symm.trans opened
          exact ⟨frame, List.mem_cons_self, receive_opens free now⟩

end NamedSets.Client
