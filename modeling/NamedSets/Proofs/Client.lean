import NamedSets.Client
import NamedSets.Proofs.Message.Frames

namespace NamedSets.Client

open Message (Header Request Segment Framed scan)

variable {σ : Type} [ForeignStorage σ] {client : Client} {engine : Engine σ}
  {buffer first : Bytes} {requests : List Request}

def receiveAll (client : Client) (engine : Engine σ) (frames : List (Header × Bytes)) :
    Engine σ × Client :=
  frames.foldl (fun state frame => state.2.receive state.1 frame.1 frame.2) (engine, client)

def requestAll (client : Client) (engine : Engine σ) (requests : List Request) :
    Engine σ × Client :=
  requests.foldl (fun state asked => state.2.request state.1 asked) (engine, client)

theorem receiveAll_append (client : Client) (engine : Engine σ)
    (frames others : List (Header × Bytes)) :
    client.receiveAll engine (frames ++ others) =
      (client.receiveAll engine frames).2.receiveAll (client.receiveAll engine frames).1 others :=
  List.foldl_append

theorem receiveAll_eq_requestAll {frames : List (Header × Bytes)}
    (read : List.Forall₂ Message.IsRead frames requests)
    (asked : ∀ request ∈ requests, request.header.isRequest) :
    client.receiveAll engine frames = client.requestAll engine requests := by
  induction read generalizing client engine with
  | nil => rfl
  | @cons frame request frames requests isRead _ ih =>
      have carriedOut : client.receive engine frame.1 frame.2 = client.request engine request := by
        have flagged : frame.1.isRequest := by
          rw [isRead.1]
          exact asked request List.mem_cons_self
        simp only [receive, flagged, if_true, isRead.2]
      simp only [receiveAll, requestAll, List.foldl_cons, carriedOut] at ih ⊢
      exact ih fun other among => asked other (List.mem_cons_of_mem _ among)

theorem sendFrom_eq (taken : Nat) (client : Client) (engine : Engine σ) (buffer : Bytes) :
    client.sendFrom taken engine buffer =
      ((client.receiveAll engine (scan buffer).1).1, (client.receiveAll engine (scan buffer).1).2,
        (scan buffer).2.map (taken + ·)) := by
  fun_induction sendFrom taken client engine buffer with
  | case1 taken client engine buffer short =>
      rw [Message.scan_none short]
      rfl
  | case2 taken client engine buffer header found rest fault refused =>
      rw [Message.scan_error found refused]
      rfl
  | case3 taken client engine buffer header found rest payload read changed after received
      stride ih =>
      have others : scan buffer = ((header, payload) :: (scan (rest.drop stride)).1,
          (scan (rest.drop stride)).2.map (Header.width + stride + ·)) := by
        simp only [Message.scan_cons found read, stride, rest, List.length_take]
      have step : client.receiveAll engine (scan buffer).1 =
          after.receiveAll changed (scan (rest.drop stride)).1 := by
        rw [others]
        simp only [receiveAll, List.foldl_cons, received]
      rw [ih, step, others, Message.map_add_map_add, Nat.add_assoc]

theorem send_eq (client : Client) (engine : Engine σ) (buffer : Bytes) :
    client.send engine buffer =
      ((client.receiveAll engine (scan buffer).1).1, (client.receiveAll engine (scan buffer).1).2,
        (scan buffer).2) := by
  rw [send, sendFrom_eq]
  cases (scan buffer).2 with
  | error fault => rfl
  | ok count => simp [Except.map]

/-- Frames that fill a buffer can be sent on their own before what follows them. -/
theorem send_append (complete : Framed first) (client : Client) (engine : Engine σ)
    (second : Bytes) :
    client.send engine first =
        ((client.send engine first).1, (client.send engine first).2.1, .ok first.length) ∧
      client.send engine (first ++ second) =
        match (client.send engine first).2.1.send (client.send engine first).1 second with
        | (changed, after, result) => (changed, after, result.map (first.length + ·)) := by
  obtain ⟨frames, count⟩ := complete.scan_append second
  simp only [send_eq, complete.scan_taken, frames, count, receiveAll_append, and_self]

/-- A buffer that is read as requests is carried out as these requests. -/
theorem send_requests (received : Segment.readAll buffer = .ok (requests.map .request))
    (asked : ∀ request ∈ requests, request.header.isRequest) (client : Client)
    (engine : Engine σ) :
    ∃ count, client.send engine buffer = ((client.requestAll engine requests).1,
        (client.requestAll engine requests).2, .ok count) ∧
      count ≤ buffer.length ∧ buffer.length < count + Header.width := by
  obtain ⟨read, count, done⟩ := Message.scan_of_readAll received
  refine ⟨count, ?_, Message.scan_rest done⟩
  rw [send_eq, done, receiveAll_eq_requestAll read asked]

/-- To send is to carry out what is sent frame by frame. -/
theorem send_frame_by_frame (client : Client) (engine : Engine σ) :
    (∀ first second, Framed first →
      client.send engine first =
          ((client.send engine first).1, (client.send engine first).2.1, .ok first.length) ∧
        client.send engine (first ++ second) =
          match (client.send engine first).2.1.send (client.send engine first).1 second with
          | (changed, after, result) => (changed, after, result.map (first.length + ·))) ∧
      ∀ buffer requests, Segment.readAll buffer = .ok (requests.map .request) →
        (∀ request ∈ requests, request.header.isRequest) →
        ∃ count, client.send engine buffer = ((client.requestAll engine requests).1,
            (client.requestAll engine requests).2, .ok count) ∧
          count ≤ buffer.length ∧ buffer.length < count + Header.width :=
  ⟨fun _ second complete => send_append complete client engine second,
    fun _ _ received asked => send_requests received asked client engine⟩

def asking (sequence : UInt32) : Request :=
  .compose .protocol 1 sequence 9 [.protocol protocolVersion]

/-- Two requests sent at once are answered like two that are sent one after the other. -/
theorem send_frame_by_frame_twice :
    let client := connect false
    let engine : Engine Empty := .new { maxSets := 4 } .builtin
    let first := (asking 1).raw
    let second := (asking 2).raw
    let together := client.send engine (first ++ second)
    let requests := [asking 1, asking 2]
    Framed first ∧
      (together = match (client.send engine first).2.1.send (client.send engine first).1 second with
        | (changed, after, result) => (changed, after, result.map (first.length + ·))) ∧
      Segment.readAll (first ++ second) = .ok (requests.map .request) ∧
      ∃ count, together = ((client.requestAll engine requests).1,
        (client.requestAll engine requests).2, .ok count) ∧ count ≤ 56 ∧ 56 < count + 16 := by
  intro client engine first second together requests
  have complete : Framed first := .cons_encode (first.drop Header.width) []
    (by decide +kernel) (by decide +kernel) .nil
  have received : Segment.readAll (first ++ second) = .ok (requests.map .request) := by
    decide +kernel
  have folded := send_frame_by_frame client engine
  exact ⟨complete, (folded.1 first second complete).2, received,
    folded.2 _ requests received (by decide +kernel)⟩

end NamedSets.Client
