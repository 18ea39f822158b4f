import NamedSets.Proofs.Message.Received

/-!
# Frames

A frame is a header with the payload that it announces. How a buffer falls into frames is decided
by their lengths alone, whatever the frames ask for. Frames that fill a buffer completely are
found in the same places when more follows, and a buffer that can be read as messages has one
frame for each of them.
-/

namespace NamedSets.Message

variable {buffer first rest payload : Bytes} {header : Header} {requests : List Request}

/-! ## Heads of longer buffers -/

theorem Header.read_append (found : read? buffer = some header) (more : Bytes) :
    read? (buffer ++ more) = some header := by
  have long := length_of_read found
  have field (start count : Nat) (inside : start + count ≤ width) :
      ((buffer ++ more).drop start).take count = (buffer.drop start).take count := by
    rw [List.drop_append_of_le_length (by omega),
      List.take_append_of_le_length (by rw [List.length_drop]; omega)]
  have enough (bytes : Bytes) (covers : width ≤ bytes.length) :
      ¬ (bytes.take width).length < width := by
    rw [List.length_take]
    omega
  have covers : width ≤ (buffer ++ more).length := by
    rw [List.length_append]
    omega
  rw [read?, if_neg (enough _ long)] at found
  rw [read?, if_neg (enough _ covers), ← found]
  simp only [field 0 4 (by decide), field 4 2 (by decide), field 6 2 (by decide),
    field 8 4 (by decide), field 12 4 (by decide)]

theorem Request.payload_append (taken : Request.payload header rest = .ok payload)
    (more : Bytes) : Request.payload header (rest ++ more) = .ok payload := by
  obtain ⟨length, same⟩ := payload_ok taken
  have inside : header.length.toNat - Header.width ≤ rest.length := by
    have shown := congrArg List.length same
    rw [List.length_take] at shown
    omega
  have whole : rest ++ more = payload ++ (rest.drop payload.length ++ more) := by
    rw [← List.append_assoc]
    congr 1
    rw [same, List.length_take, Nat.min_eq_left inside, List.take_append_drop]
  rw [whole]
  exact Request.payload_padded length _

/-! ## Scanning a buffer -/

/-- The frames in a buffer, and how many bytes they take with their padding. A frame of impossible
length ends the scan with a fault; fewer bytes than a header at the end are no frame. -/
def scan (buffer : Bytes) : List (Header × Bytes) × Except Fault Nat :=
  match _found : Header.read? buffer with
  | none => ([], .ok 0)
  | some header =>
      let rest := buffer.drop Header.width
      match Request.payload header rest with
      | .error fault => ([], .error fault)
      | .ok payload =>
          let stride := (rest.take (Bytes.aligned payload.length)).length
          let others := scan (rest.drop stride)
          ((header, payload) :: others.1, others.2.map (Header.width + stride + ·))
termination_by buffer.length
decreasing_by
  have long := Header.length_of_read _found
  simp only [Header.width, List.length_drop] at long ⊢
  omega

/-- Frames, each followed by its padding, and nothing else. -/
inductive Framed : Bytes → Prop
  | nil : Framed []
  | cons {buffer payload : Bytes} {header : Header} (found : Header.read? buffer = some header)
      (taken : Request.payload header (buffer.drop Header.width) = .ok payload)
      (padded : Bytes.aligned payload.length ≤ (buffer.drop Header.width).length)
      (others : Framed ((buffer.drop Header.width).drop (Bytes.aligned payload.length))) :
      Framed buffer

/-- A frame is written as its header, its payload and the bytes that align it. -/
theorem Framed.cons_encode (payload fill : Bytes)
    (length : header.length.toNat = Header.width + payload.length)
    (padded : payload.length + fill.length = Bytes.aligned payload.length) (others : Framed rest) :
    Framed (header.encode ++ (payload ++ (fill ++ rest))) := by
  have behind : (header.encode ++ (payload ++ (fill ++ rest))).drop Header.width =
      payload ++ (fill ++ rest) := List.drop_left' header.length_encode
  refine .cons (Header.read_encode header _) (?_ : Request.payload header _ = .ok payload) ?_ ?_
  · rw [behind]
    exact Request.payload_padded length _
  · rw [behind, ← List.append_assoc, List.length_append, List.length_append, padded]
    exact Nat.le_add_right _ _
  · rwa [behind, ← List.append_assoc, List.drop_left' (by rw [List.length_append, padded])]

theorem scan_none (short : Header.read? buffer = none) : scan buffer = ([], .ok 0) := by
  rw [scan]
  split
  · rfl
  · rename_i header found
    simp [short] at found

theorem scan_error {fault : Fault} (found : Header.read? buffer = some header)
    (refused : Request.payload header (buffer.drop Header.width) = .error fault) :
    scan buffer = ([], .error fault) := by
  rw [scan]
  split
  · rename_i short
    simp [short] at found
  · rename_i other same
    cases found.symm.trans same
    simp only [refused]

theorem scan_cons (found : Header.read? buffer = some header)
    (taken : Request.payload header (buffer.drop Header.width) = .ok payload) :
    scan buffer =
      let rest := buffer.drop Header.width
      let stride := min (Bytes.aligned payload.length) rest.length
      ((header, payload) :: (scan (rest.drop stride)).1,
        (scan (rest.drop stride)).2.map (Header.width + stride + ·)) := by
  rw [scan]
  split
  · rename_i short
    simp [short] at found
  · rename_i other same
    cases found.symm.trans same
    simp only [taken, List.length_take]

/-- What the number of a step adds to that of the steps behind it. -/
theorem map_add_map_add {result : Except Fault Nat} (first second : Nat) :
    (result.map (second + ·)).map (first + ·) = result.map (first + second + ·) := by
  cases result with
  | error fault => rfl
  | ok number => simp [Except.map, Nat.add_assoc]

/-- Frames that fill a buffer are found in the same places when more follows. -/
theorem Framed.scan_append (complete : Framed first) (second : Bytes) :
    (scan (first ++ second)).1 = (scan first).1 ++ (scan second).1 ∧
      (scan (first ++ second)).2 = (scan second).2.map (first.length + ·) := by
  induction complete with
  | nil =>
      have nothing : scan [] = ([], .ok 0) := scan_none rfl
      rw [nothing, List.nil_append, List.nil_append, List.length_nil]
      refine ⟨rfl, ?_⟩
      cases (scan second).2 <;> simp [Except.map]
  | @cons buffer payload header found taken padded others ih =>
      have long := Header.length_of_read found
      have behind : (buffer ++ second).drop Header.width = buffer.drop Header.width ++ second :=
        List.drop_append_of_le_length long
      have stride : min (Bytes.aligned payload.length)
          (buffer.drop Header.width ++ second).length = Bytes.aligned payload.length := by
        rw [List.length_append]
        omega
      have length : Header.width + Bytes.aligned payload.length +
          ((buffer.drop Header.width).drop (Bytes.aligned payload.length)).length =
            buffer.length := by
        rw [List.length_drop] at padded ⊢
        rw [List.length_drop]
        omega
      rw [scan_cons (Header.read_append found second)
        (by rw [behind]; exact Request.payload_append taken second), scan_cons found taken]
      simp only [behind, stride, Nat.min_eq_left padded,
        List.drop_append_of_le_length padded, ih.1, ih.2, List.cons_append, map_add_map_add, length,
        and_self]

theorem Framed.scan_taken (complete : Framed first) : (scan first).2 = .ok first.length := by
  have nothing : scan [] = ([], .ok 0) := scan_none rfl
  have alone := (complete.scan_append []).2
  rwa [List.append_nil, nothing] at alone

/-- A scan that comes to the end leaves fewer bytes than a header. -/
theorem scan_rest {count : Nat} (done : (scan buffer).2 = .ok count) :
    count ≤ buffer.length ∧ buffer.length < count + Header.width := by
  fun_induction scan buffer generalizing count with
  | case1 buffer short =>
      cases done
      have few : buffer.length < Header.width := by
        by_contra many
        rw [Header.read?, if_neg (by rw [List.length_take]; omega)] at short
        cases short
      omega
  | case2 => cases done
  | case3 buffer header found rest payload taken stride others =>
      rename_i ih
      have long := Header.length_of_read found
      have length : rest.length = buffer.length - Header.width := List.length_drop
      have inside : stride ≤ rest.length := by
        simp only [stride, List.length_take]
        omega
      cases behind : others.2 with
      | error fault =>
          rw [behind] at done
          cases done
      | ok number =>
          have remaining := ih behind
          rw [behind] at done
          simp only [Except.map, Except.ok.injEq] at done
          rw [List.length_drop] at remaining
          omega

/-! ## Frames that are read as messages -/

def IsRead (frame : Header × Bytes) (request : Request) : Prop :=
  frame.1 = request.header ∧ Request.read frame.1 frame.2 = .ok request

theorem Request.read_ok {request : Request} (accepted : Request.read header rest = .ok request) :
    ∃ payload, Request.payload header rest = .ok payload ∧ IsRead (header, payload) request := by
  unfold Request.read at accepted
  split at accepted
  · contradiction
  · rename_i command known
    split at accepted
    · contradiction
    · rename_i payload taken
      refine ⟨payload, taken, ?_, ?_⟩
      · unfold ofPayload at accepted
        split at accepted
        · split at accepted
          · cases accepted
            rfl
          · contradiction
        · contradiction
      · have alone := payload_exact (payload_ok taken).1
        simp only [Request.read, known, alone, accepted]

/-- A buffer that is read as requests has one frame for each of them. -/
theorem scan_of_readAll (received : Segment.readAll buffer = .ok (requests.map .request)) :
    List.Forall₂ IsRead (scan buffer).1 requests ∧ ∃ count, (scan buffer).2 = .ok count := by
  induction requests generalizing buffer with
  | nil =>
      cases short : Header.read? buffer with
      | none =>
          rw [scan_none short]
          exact ⟨.nil, 0, rfl⟩
      | some header =>
          rw [Segment.readAll] at received
          split at received
          · simp_all
          · dsimp only at received
            split at received
            · contradiction
            · split at received <;> simp at received
  | cons request others ih =>
      obtain ⟨header, found, read, remaining⟩ := Segment.readAll_cons received
      obtain ⟨payload, taken, isRead⟩ := Request.read_ok (Segment.read_request read).2.2
      have stride : Segment.stride header = Bytes.aligned payload.length := by
        rw [Segment.stride, (Request.payload_ok taken).1, Nat.add_sub_cancel_left]
      have behind : (buffer.drop Header.width).drop
          (min (Bytes.aligned payload.length) (buffer.drop Header.width).length) =
            (buffer.drop Header.width).drop (Segment.stride header) := by
        rw [stride]
        rcases Nat.le_total (Bytes.aligned payload.length) (buffer.drop Header.width).length with
          inside | beyond
        · rw [Nat.min_eq_left inside]
        · rw [Nat.min_eq_right beyond, List.drop_length, List.drop_of_length_le beyond]
      obtain ⟨frames, count, done⟩ := ih remaining
      rw [scan_cons found taken]
      dsimp only
      rw [behind, done]
      exact ⟨.cons isRead frames, _, rfl⟩

end NamedSets.Message
