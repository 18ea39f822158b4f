import NamedSets.OptionQuery
import NamedSets.Proofs.Client

/-!
# Without privilege

What can be tried without privilege: to use a connection, to hand over requests, to start dumps
and to ask by the socket option. What comes of an attempt can be said without looking at the
engine. So attempts leave an engine as it is and cannot tell it from any other.
-/

namespace NamedSets

open Message (Header Request Report scan)

variable {σ τ : Type}

inductive Attempt where
  | send (buffer : Bytes)
  | recv
  | close
  | handle (request : Request)
  | startDump (request : Request)
  | query (option : Int) (buffer : Bytes)

namespace Attempt

inductive Result where
  | sent (taken : Except Fault Nat)
  | received (message : Option Bytes)
  | closed
  | handled (echoed : Request) (answer : Engine.Answer)
  | started (dump : Except Fault Dump)
  /-- How a query ended, and its buffer, which only an answer overwrites. -/
  | queried (outcome : Except Fault Unit) (buffer : Bytes)

def perform [ForeignStorage σ] (engine : Engine σ) (client : Client) :
    Attempt → Engine σ × Client × Result
  | .send buffer =>
      let (engine, client, taken) := client.send engine buffer
      (engine, client, .sent taken)
  | .recv =>
      let (engine, client, message) := client.recv engine
      (engine, client, .received message)
  | .close =>
      let (engine, client) := client.close engine
      (engine, client, .closed)
  | .handle request =>
      let (engine, echoed, answer) := engine.handle false request
      (engine, client, .handled echoed answer)
  | .startDump request => (engine, client, .started (engine.startDump false request))
  | .query option buffer =>
      let answer := OptionQuery.answer engine.table false option buffer
      (engine, client, .queried (answer.map fun _ => ()) (answer.toOption.getD buffer))

def performAll [ForeignStorage σ] (engine : Engine σ) (client : Client) :
    List Attempt → Engine σ × Client × List Result
  | [] => (engine, client, [])
  | attempt :: attempts =>
      let (engine, client, result) := attempt.perform engine client
      let (engine, client, results) := performAll engine client attempts
      (engine, client, result :: results)

/-! ## What is answered without an engine -/

def refusal (request : Request) : Bytes :=
  (Report.answer request (some .privilegeRequired)).encode

def repliesTo (frame : Header × Bytes) : List Bytes :=
  if frame.1.isRequest then
    match Request.read frame.1 frame.2 with
    | .ok request => [refusal request]
    | .error fault =>
        [(Report.answering frame.1 (frame.1.encode ++ frame.2) (some fault)).encode]
  else []

def refuse (client : Client) : Attempt → Client × Result
  | .send buffer =>
      (client.enqueue ((scan buffer).1.flatMap repliesTo), .sent (scan buffer).2)
  | .recv => ({ client with queue := client.queue.tail }, .received client.queue.head?)
  | .close => ({ client with queue := [] }, .closed)
  | .handle request => (client, .handled request (.messages [refusal request]))
  | .startDump _ => (client, .started (.error .privilegeRequired))
  | .query _ buffer => (client, .queried (.error .privilegeRequired) buffer)

def refuseAll (client : Client) : List Attempt → Client × List Result
  | [] => (client, [])
  | attempt :: attempts =>
      let (client, result) := attempt.refuse client
      let (client, results) := refuseAll client attempts
      (client, result :: results)

/-- A client that has neither a privilege nor a dump. -/
structure Barred (client : Client) : Prop where
  unprivileged : client.privileged = false
  idle : client.dump = none

theorem Barred.refuse {client : Client} (barred : Barred client) (attempt : Attempt) :
    Barred (attempt.refuse client).1 := by
  cases attempt <;> exact ⟨barred.unprivileged, barred.idle⟩

/-! ## One attempt -/

variable [ForeignStorage σ] [ForeignStorage τ] {client : Client}

theorem handle_unprivileged (engine : Engine σ) (request : Request) :
    engine.handle false request = (engine, request, .messages [refusal request]) := rfl

theorem receive_barred (barred : Barred client) (engine : Engine σ) (frame : Header × Bytes) :
    client.receive engine frame.1 frame.2 = (engine, client.enqueue (repliesTo frame)) := by
  have requested (request : Request) :
      client.request engine request = (engine, client.enqueue [refusal request]) := by
    simp only [Client.request, barred.idle, barred.unprivileged, handle_unprivileged,
      Option.isSome_none, Bool.and_false, Bool.false_eq_true, if_false]
  unfold Client.receive repliesTo
  split
  · cases Request.read frame.1 frame.2 with
    | error fault => rfl
    | ok request => exact requested request
  · simp [Client.enqueue]

theorem receiveAll_barred (barred : Barred client) (engine : Engine σ)
    (frames : List (Header × Bytes)) :
    client.receiveAll engine frames = (engine, client.enqueue (frames.flatMap repliesTo)) := by
  induction frames generalizing client with
  | nil => simp [Client.receiveAll, Client.enqueue]
  | cons frame frames ih =>
      have later : Barred (client.enqueue (repliesTo frame)) :=
        ⟨barred.unprivileged, barred.idle⟩
      calc client.receiveAll engine (frame :: frames)
        _ = (client.enqueue (repliesTo frame)).receiveAll engine frames := by
          rw [Client.receiveAll, List.foldl_cons, receive_barred barred]
          rfl
        _ = (engine, (client.enqueue (repliesTo frame)).enqueue (frames.flatMap repliesTo)) :=
          ih later
        _ = (engine, client.enqueue ((frame :: frames).flatMap repliesTo)) := by
          simp only [Client.enqueue, List.append_assoc, List.flatMap_cons]

/-- An attempt leaves the engine as it is, and comes to the same on every engine. -/
theorem perform_barred (barred : Barred client) (engine : Engine σ) (attempt : Attempt) :
    attempt.perform engine client = (engine, attempt.refuse client) := by
  obtain ⟨privileged, queue, dump⟩ := client
  obtain ⟨rfl, rfl⟩ : privileged = false ∧ dump = none := ⟨barred.unprivileged, barred.idle⟩
  cases attempt with
  | send buffer => simp only [perform, Client.send_eq, receiveAll_barred barred, refuse]
  | recv => cases queue <;> rfl
  | close => rfl
  | handle request => rfl
  | startDump request => rfl
  | query option buffer => rfl

/-! ## Any number of attempts -/

theorem performAll_barred (barred : Barred client) (engine : Engine σ) (attempts : List Attempt) :
    performAll engine client attempts = (engine, refuseAll client attempts) := by
  induction attempts generalizing client with
  | nil => rfl
  | cons attempt attempts ih =>
      simp only [performAll, perform_barred barred, ih (barred.refuse attempt), refuseAll]

omit [ForeignStorage σ] [ForeignStorage τ] in
theorem Barred.refuseAll (barred : Barred client) (attempts : List Attempt) :
    Barred (refuseAll client attempts).1 := by
  induction attempts generalizing client with
  | nil => exact barred
  | cons attempt attempts ih => exact ih (barred.refuse attempt)

/-- That an attempt comes to nothing: no dump is started, and the buffer of a query is as it
was. -/
inductive Futile : Attempt → Result → Prop
  | send (buffer : Bytes) (taken : Except Fault Nat) : Futile (.send buffer) (.sent taken)
  | recv (message : Option Bytes) : Futile .recv (.received message)
  | close : Futile .close .closed
  | handle (request : Request) :
      Futile (.handle request) (.handled request (.messages [refusal request]))
  | startDump (request : Request) :
      Futile (.startDump request) (.started (.error .privilegeRequired))
  | query (option : Int) (buffer : Bytes) :
      Futile (.query option buffer) (.queried (.error .privilegeRequired) buffer)

omit [ForeignStorage σ] [ForeignStorage τ] in
theorem futile_refuseAll (client : Client) (attempts : List Attempt) :
    List.Forall₂ Futile attempts (refuseAll client attempts).2 := by
  induction attempts generalizing client with
  | nil => exact .nil
  | cons attempt attempts ih =>
      refine .cons ?_ (ih _)
      cases attempt <;> constructor

/-- Attempts change no engine, start no dump and overwrite no buffer, and what they are answered is
the same on any two engines. -/
theorem attempts_change_and_tell_nothing (engine : Engine σ) (other : Engine τ)
    (attempts : List Attempt) :
    let here := performAll engine (.connect false) attempts
    let there := performAll other (.connect false) attempts
    here.1 = engine ∧ there.1 = other ∧ here.2 = there.2 ∧ here.2.1.dump = none ∧
      List.Forall₂ Futile attempts here.2.2 := by
  intro here there
  have barred : Barred (.connect false) := ⟨rfl, rfl⟩
  have ours : here = (engine, refuseAll (.connect false) attempts) :=
    performAll_barred barred engine attempts
  have theirs : there = (other, refuseAll (.connect false) attempts) :=
    performAll_barred barred other attempts
  rw [ours, theirs]
  exact ⟨rfl, rfl, rfl, (barred.refuseAll attempts).idle, futile_refuseAll _ attempts⟩

end Attempt

end NamedSets
