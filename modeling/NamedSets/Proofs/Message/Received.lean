import NamedSets.Proofs.Message.Reading

namespace NamedSets.Message

variable {buffer rest payload block : Bytes} {header : Header} {segment : Segment}
  {segments : List Segment} {request : Request} {command : Command}

/-! ## Messages in a buffer -/

namespace Segment

theorem readAll_cons (received : readAll buffer = .ok (segment :: segments)) :
    ∃ header, Header.read? buffer = some header ∧
      read header (buffer.drop Header.width) = .ok segment ∧
      readAll ((buffer.drop Header.width).drop (stride header)) = .ok segments := by
  rw [readAll] at received
  split at received
  · simp at received
  · rename_i header found
    dsimp only at received
    split at received
    · contradiction
    · rename_i first read
      split at received
      · contradiction
      · rename_i others remaining
        cases received
        exact ⟨header, found, read, remaining⟩

theorem exists_read (received : readAll buffer = .ok segments) (among : segment ∈ segments) :
    ∃ header rest, read header rest = .ok segment := by
  induction segments generalizing buffer with
  | nil => contradiction
  | cons first others ih =>
      obtain ⟨header, -, read, remaining⟩ := readAll_cons received
      rcases List.mem_cons.mp among with rfl | later
      · exact ⟨header, _, read⟩
      · exact ih remaining later

theorem read_report {report : Report} (accepted : read header rest = .ok (.report report)) :
    header.messageType = Report.messageType ∧ ∃ payload,
      Request.payload header rest = .ok payload ∧ 4 ≤ payload.length ∧
      report = { header, code := Report.readCode (payload.take 4), echoed := payload.drop 4 } := by
  unfold read at accepted
  split at accepted
  · rename_i typed
    split at accepted
    · contradiction
    · rename_i payload taken
      split at accepted
      · contradiction
      · rename_i long
        cases accepted
        exact ⟨typed, payload, taken, Nat.not_lt.mp long, rfl⟩
  · split at accepted <;> split at accepted <;> cases accepted

theorem read_request (accepted : read header rest = .ok (.request request)) :
    header.messageType ≠ Report.messageType ∧ header.messageType ≠ Done.messageType ∧
      Request.read header rest = .ok request := by
  unfold read at accepted
  split at accepted
  · split at accepted
    · contradiction
    · split at accepted <;> cases accepted
  · rename_i notReport
    split at accepted
    · split at accepted <;> cases accepted
    · rename_i notDone
      split at accepted
      · contradiction
      · rename_i received read
        cases accepted
        exact ⟨notReport, notDone, read⟩

end Segment

/-! ## Requests and their bytes -/

namespace Request

theorem payload_ok (taken : Request.payload header rest = .ok payload) :
    header.length.toNat = Header.width + payload.length ∧
      payload = rest.take (header.length.toNat - Header.width) := by
  unfold Request.payload at taken
  extract_lets length at taken
  split at taken
  · contradiction
  · rename_i long
    split at taken
    · contradiction
    · rename_i enough
      cases taken
      refine ⟨?_, rfl⟩
      have covers : length = header.length.toNat - Header.width := rfl
      rw [List.length_take] at enough ⊢
      omega

/-- The bytes of a request hold its header, its body and a block of attributes that is read as
its arguments. -/
structure Carries (request : Request) (block : Bytes) : Prop where
  length : request.header.length.toNat = headLength + block.length
  command : Command.ofMessageType request.header.messageType = .ok request.command
  arguments : Argument.readAll block = .ok request.arguments
  raw : request.raw = request.header.encode ++ (request.body.encode ++ block)

@[simp] theorem length_encode_body (body : Body) : body.encode.length = 4 := by
  simp [Body.encode]

theorem exists_carries_of_read (accepted : read header rest = .ok request) :
    ∃ block, request.Carries block := by
  unfold read at accepted
  split at accepted
  · contradiction
  · rename_i command known
    split at accepted
    · contradiction
    · rename_i payload taken
      unfold ofPayload at accepted
      split at accepted
      · rename_i family version resource₀ resource₁ block
        split at accepted
        · rename_i arguments understood
          cases accepted
          have announced := (payload_ok taken).1
          have resource : Bytes.little 2
              (UInt16.ofNat (Bytes.ofLittle [resource₀, resource₁])).toNat =
                [resource₀, resource₁] := by
            have small : Bytes.ofLittle [resource₀, resource₁] < UInt16.size := by
              simpa using Bytes.ofLittle_lt [resource₀, resource₁]
            rw [UInt16.toNat_ofNat_of_lt' small]
            exact Bytes.little_ofLittle [resource₀, resource₁]
          refine ⟨block, ?_, known, understood, ?_⟩
          · simpa [Header.width, headLength, Nat.add_comm, Nat.add_left_comm] using announced
          · simp only [Body.encode, resource]
            rfl
        · contradiction
      · contradiction

/-- A request that was received carries the bytes of its arguments. -/
theorem exists_carries (received : Segment.readAll buffer = .ok segments)
    (among : .request request ∈ segments) : ∃ block, request.Carries block := by
  obtain ⟨header, rest, read⟩ := Segment.exists_read received among
  exact exists_carries_of_read (Segment.read_request read).2.2

theorem Carries.ofPayload (carries : request.Carries block) :
    Request.ofPayload request.header request.command (request.body.encode ++ block) =
      .ok request := by
  obtain ⟨header, ⟨family, version, resource⟩, command, arguments, raw⟩ := request
  have encoded : (Body.mk family version resource).encode =
      [family, version, UInt8.ofNat resource.toNat, UInt8.ofNat (resource.toNat / 256)] := rfl
  have whole : UInt16.ofNat (Bytes.ofLittle (Bytes.little 2 resource.toNat)) = resource := by
    rw [Bytes.ofLittle_little]
    simp
  have understood := carries.arguments
  have bytes := carries.raw
  simp only at understood bytes
  simp only [Request.ofPayload, encoded, List.cons_append, List.nil_append, understood, bytes]
  simpa [Bytes.little] using whole

theorem Carries.length_raw (carries : request.Carries block) :
    request.raw.length = request.header.length.toNat := by
  rw [carries.length, carries.raw, List.length_append, Header.length_encode, List.length_append,
    length_encode_body, ← Nat.add_assoc]
  rfl

/-- Reading the bytes of a request again gives the request again. -/
theorem Carries.readAll (carries : request.Carries block) :
    Segment.readAll request.raw = .ok [.request request] := by
  have length : request.header.length.toNat =
      Header.width + (request.body.encode ++ block).length := by
    rw [carries.length, List.length_append, length_encode_body, ← Nat.add_assoc]
    rfl
  have known := carries.command
  have notReport : request.header.messageType ≠ Report.messageType := by
    intro same
    rw [same] at known
    cases known
  have notDone : request.header.messageType ≠ Done.messageType := by
    intro same
    rw [same] at known
    cases known
  rw [carries.raw]
  refine Segment.readAll_single ?_ length
  simp only [Segment.read, if_neg notReport, if_neg notDone, Request.read, known,
    payload_exact length, carries.ofPayload]

/-! ## Requests that are composed -/

def compose (command : Command) (flags : UInt16) (sequence sender : UInt32)
    (arguments : List Argument) : Request :=
  let block := Attr.Tree.encodeAll (arguments.map Argument.tree)
  let header : Header := {
    length := .ofNat (headLength + block.length)
    messageType := command.messageType
    flags
    sequence
    sender }
  { header, body := Draft.replyBody, command, arguments
    raw := header.encode ++ (Draft.replyBody.encode ++ block) }

theorem carries_compose {flags : UInt16} {sequence sender : UInt32} {arguments : List Argument}
    (tagged : ∀ argument ∈ arguments, argument.WellTagged)
    (short : ∀ argument ∈ arguments, 4 + argument.tree.raw.payload.length < 65536)
    (fits : headLength + Attr.Tree.sizeAll (arguments.map Argument.tree) < UInt32.size) :
    (compose command flags sequence sender arguments).Carries
      (Attr.Tree.encodeAll (arguments.map Argument.tree)) where
  length := by
    rw [← Attr.Tree.length_encodeAll] at fits
    exact UInt32.toNat_ofNat_of_lt' fits
  command := Command.ofMessageType_messageType command
  arguments := by
    refine Argument.readAll_encodeAll ?_ ?_
    · exact List.forall₂_map_left_iff.mpr (List.forall₂_same.mpr fun argument among =>
        Argument.means_tree (tagged argument among))
    · intro tree among
      obtain ⟨argument, present, rfl⟩ := List.mem_map.mp among
      exact short argument present
  raw := rfl

end Request

end NamedSets.Message
