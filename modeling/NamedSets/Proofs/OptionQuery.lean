import NamedSets.OptionQuery
import NamedSets.Proofs.Datum.Reading
import NamedSets.Proofs.Session.Names

/-!
# Queries by the socket option

A query is answered in its own buffer. One that fails leaves the buffer as it was; one that
succeeds overwrites what stands behind the operation and its version. In a session, names and
slots of sets are translated into each other, and a name that no set has gets a handle that is
no slot.
-/

namespace NamedSets

/-- A name is read back from the front of its field, whether the terminating zero is there or
not. -/
theorem SetName.ofField_zeros (name : SetName) (count : Nat) :
    ofField (name.bytes ++ Bytes.zeros count) = .ok name := by
  have front : (name.bytes ++ Bytes.zeros count).takeWhile (· != 0) = Bytes.ofText name.text := by
    rw [bytes, takeWhile_append, Bytes.zeros, List.takeWhile_replicate]
    simp
  simp only [ofField, front, Bytes.text_ofText, name.ofText_text]

theorem SetName.take_field (name : SetName) :
    ∃ count, name.field.take (fieldWidth - 1) = name.bytes ++ Bytes.zeros count := by
  have short : name.bytes.length ≤ fieldWidth - 1 := Nat.le_pred_of_lt name.short
  refine ⟨fieldWidth - 1 - name.bytes.length, ?_⟩
  have inside : fieldWidth - 1 - name.bytes.length ≤ fieldWidth - name.bytes.length := by omega
  rw [field, List.take_append, List.take_of_length_le short, Bytes.zeros, Bytes.zeros,
    List.take_replicate, Nat.min_eq_left inside]

namespace OptionQuery

variable {σ : Type} {table : Table σ} {buffer field changed : Bytes} {operation : Operation}
  {option : Int} {privileged : Bool} {slot : Nat}

/-! ## Queries -/

def Operation.number : Operation → Nat
  | byName => 6
  | byIndex => 7
  | version => 256

@[simp] theorem Operation.ofNumber_number (operation : Operation) :
    ofNumber? operation.number = some operation := by
  cases operation <;> rfl

def Operation.answerStart : Operation → Nat
  | byName | byIndex => 8
  | version => 4

def query (operation : Operation) (field : Bytes) : Bytes :=
  Bytes.little 4 operation.number ++ Bytes.little 4 protocolVersion.toNat ++ field

def indexOf (field : Bytes) : Nat := Bytes.ofLittle (field.take 2)

theorem length_indexField (slot : Nat) : (indexField slot).length = SetName.fieldWidth := by
  simp [indexField, Bytes.zeros, SetName.fieldWidth]

theorem indexOf_indexField (short : slot < 65536) : indexOf (indexField slot) = slot := by
  have front : (indexField slot).take 2 = Bytes.little 2 slot :=
    List.take_left' (Bytes.length_little 2 slot)
  rw [indexOf, front, Bytes.ofLittle_little]
  exact Nat.mod_eq_of_lt short

theorem length_query (operation : Operation) (field : Bytes) :
    (query operation field).length = 8 + field.length := by
  simp [query]
  omega

theorem take_query (operation : Operation) (field : Bytes) :
    (query operation field).take 8 =
      Bytes.little 4 operation.number ++ Bytes.little 4 protocolVersion.toNat :=
  List.take_left' (by simp)

theorem drop_query (operation : Operation) (field : Bytes) :
    (query operation field).drop 8 = field :=
  List.drop_left' (by simp)

theorem operationOf_query (long : 8 + field.length = operation.bufferLength) :
    operationOf (query operation field) = .ok operation := by
  have number : Bytes.ofLittle ((query operation field).take 4) = operation.number := by
    rw [query, List.append_assoc, List.take_left' (Bytes.length_little _ _),
      Bytes.ofLittle_little]
    cases operation <;> rfl
  have version : Bytes.ofLittle (((query operation field).drop 4).take 4) =
      protocolVersion.toNat := by
    rw [query, List.append_assoc, List.drop_left' (Bytes.length_little _ _),
      List.take_left' (Bytes.length_little _ _), Bytes.ofLittle_little]
    rfl
  have enough : 8 ≤ (query operation field).length := by
    rw [length_query]
    exact Nat.le_add_right _ _
  have fits : (query operation field).length = operation.bufferLength :=
    (length_query operation field).trans long
  have plenty : ¬ (query operation field).length < 4 := by omega
  have room : ¬ (query operation field).length < 8 := Nat.not_lt.mpr enough
  simp only [operationOf, number, version, if_neg plenty, room, decide_false, Bool.and_false,
    Bool.false_eq_true, if_false, ne_eq, not_true_eq_false, Operation.ofNumber_number, if_pos fits]

/-! ## Answers -/

theorem length_answerByName (table : Table σ) (field : Bytes) :
    (answerByName table field).length = SetName.fieldWidth := by
  unfold answerByName
  split <;> exact length_indexField _

theorem length_answerByIndex {answered : Bytes} (found : answerByIndex table field = .ok answered) :
    answered.length = SetName.fieldWidth := by
  unfold answerByIndex at found
  extract_lets index at found
  split at found
  · contradiction
  · split at found
    · rename_i name _
      cases found
      exact name.length_field
    · cases found
      simp [Bytes.zeros]

theorem answerByName_field (table : Table σ) (name : SetName) :
    answerByName table name.field = indexField (Table.handle (table.find? name.text)) := by
  obtain ⟨count, front⟩ := name.take_field
  simp only [answerByName, front, name.ofField_zeros count]

theorem answerByIndex_indexOf {entry : Entry σ}
    (occupied : table.get? (indexOf field) = some entry) :
    answerByIndex table field = .ok entry.name.field := by
  have inside : ¬ table.capacity ≤ indexOf field :=
    Nat.not_le.mpr (Table.lt_capacity_of_get occupied)
  have named : table.name? (indexOf field) = some entry.name := by
    rw [Table.name?, occupied]
    rfl
  unfold answerByIndex
  extract_lets index
  have same : index = indexOf field := rfl
  rw [same, if_neg inside, named]

theorem answer_byName (table : Table σ) (name : SetName) :
    answer table true optionNumber (query .byName name.field) =
      .ok (query .byName (indexField (Table.handle (table.find? name.text)))) := by
  have asked : operationOf (query .byName name.field) = .ok .byName :=
    operationOf_query (by rw [name.length_field]; rfl)
  simp only [answer, asked, take_query, drop_query, answerByName_field]
  rfl

theorem answer_byIndex {entry : Entry σ} (long : field.length = SetName.fieldWidth)
    (occupied : table.get? (indexOf field) = some entry) :
    answer table true optionNumber (query .byIndex field) =
      .ok (query .byIndex entry.name.field) := by
  have asked : operationOf (query .byIndex field) = .ok .byIndex :=
    operationOf_query (by rw [long]; rfl)
  simp only [answer, asked, take_query, drop_query, answerByIndex_indexOf occupied]
  rfl

/-! ## Answers in place -/

/-- A part of a query that may read the table and overwrite the buffer. A fault takes nothing
back that was written before it. -/
abbrev InPlace (σ : Type) := ExceptT Fault (StateM (Table σ × Bytes))

def overwrite (start : Nat) (bytes : Bytes) : InPlace σ Unit :=
  modify fun (table, buffer) =>
    (table, buffer.take start ++ bytes ++ buffer.drop (start + bytes.length))

def carryOut (table : Table σ) (buffer : Bytes) : Operation → InPlace σ Unit
  | .version => overwrite 4 (Bytes.little 4 protocolVersion.toNat)
  | .byName => overwrite 8 (answerByName table (buffer.drop 8))
  | .byIndex => do overwrite 8 (← ofExcept (answerByIndex table (buffer.drop 8)))

def answerInPlace (privileged : Bool) (option : Int) : InPlace σ Unit := do
  if !privileged then throw .privilegeRequired
  else if option ≠ optionNumber then throw .unknownOption
  else
    let (table, buffer) ← get
    carryOut table buffer (← ofExcept (operationOf buffer))

theorem run_ofExcept_bind {α : Type} (value : Except Fault α) (next : α → InPlace σ Unit)
    (state : Table σ × Bytes) :
    (ofExcept value >>= next).run.run state = match value with
      | .ok made => (next made).run.run state
      | .error fault => (.error fault, state) := by
  cases value <;> rfl

theorem run_get_bind (next : Table σ × Bytes → InPlace σ Unit) (state : Table σ × Bytes) :
    (get >>= next).run.run state = (next state).run.run state := rfl

theorem run_overwrite (start : Nat) (bytes : Bytes) (table : Table σ)
    (ends : buffer.length = start + bytes.length) :
    (overwrite start bytes).run.run (table, buffer) =
      (.ok (), (table, buffer.take start ++ bytes)) := by
  change (Except.ok (), (table, buffer.take start ++ bytes ++
    buffer.drop (start + bytes.length))) = _
  rw [List.drop_of_length_le (Nat.le_of_eq ends), List.append_nil]

theorem length_of_operationOf (asked : operationOf buffer = .ok operation) :
    buffer.length = operation.bufferLength := by
  unfold operationOf at asked
  extract_lets number version at asked
  split at asked
  · contradiction
  · split at asked
    · contradiction
    · split at asked
      · contradiction
      · split at asked
        · contradiction
        · split at asked
          · rename_i long
            cases asked
            exact long
          · contradiction

/-- Answering in place leaves the table as it is, and the buffer as the answer has it. -/
theorem run_answerInPlace (table : Table σ) (privileged : Bool) (option : Int) (buffer : Bytes) :
    (answerInPlace privileged option).run.run (table, buffer) =
      match answer table privileged option buffer with
      | .ok changed => (.ok (), (table, changed))
      | .error fault => (.error fault, (table, buffer)) := by
  cases privileged with
  | false => rfl
  | true =>
      by_cases known : option = optionNumber
      · subst known
        simp only [answerInPlace, Bool.not_true, Bool.false_eq_true, if_false, ne_eq,
          not_true_eq_false]
        rw [run_get_bind, run_ofExcept_bind]
        cases asked : operationOf buffer with
        | error fault => simp only [answer, asked]; rfl
        | ok operation =>
            have long := length_of_operationOf asked
            cases operation with
            | version =>
                simp only [answer, asked, carryOut]
                exact run_overwrite 4 _ table (by rw [long, Bytes.length_little]; rfl)
            | byName =>
                simp only [answer, asked, carryOut]
                exact run_overwrite 8 _ table (by rw [long, length_answerByName]; rfl)
            | byIndex =>
                simp only [answer, asked, carryOut, run_ofExcept_bind]
                cases found : answerByIndex table (buffer.drop 8) with
                | error fault => rfl
                | ok field => exact run_overwrite 8 _ table (by
                    rw [long, length_answerByIndex found]; rfl)
      · simp [answerInPlace, answer, known]
        rfl

/-- Who may ask is answered in place: the field of the query is replaced, and nothing else. -/
def Replies (table : Table σ) (operation : Operation) (field reply : Bytes) : Prop :=
  (answerInPlace true optionNumber).run.run (table, query operation field) =
    (.ok (), (table, query operation reply))

theorem replies_byName (table : Table σ) (name : SetName) :
    Replies table .byName name.field (indexField (Table.handle (table.find? name.text))) := by
  rw [Replies, run_answerInPlace, answer_byName]

theorem replies_byIndex {entry : Entry σ} (long : field.length = SetName.fieldWidth)
    (occupied : table.get? (indexOf field) = some entry) :
    Replies table .byIndex field entry.name.field := by
  rw [Replies, run_answerInPlace, answer_byIndex long occupied]

/-- A query that is answered changes nothing in front of its answer. -/
theorem answer_ok (answered : answer table privileged option buffer = .ok changed) :
    ∃ operation, operationOf buffer = .ok operation ∧ changed.length = buffer.length ∧
      changed.take operation.answerStart = buffer.take operation.answerStart := by
  unfold answer at answered
  split at answered
  · contradiction
  · split at answered
    · contradiction
    · have kept {start : Nat} {field : Bytes} (ends : buffer.length = start + field.length) :
          (buffer.take start ++ field).length = buffer.length ∧
            (buffer.take start ++ field).take start = buffer.take start := by
        have front : (buffer.take start).length = start := List.length_take_of_le (by omega)
        exact ⟨by rw [List.length_append, front, ends], List.take_left' front⟩
      split at answered
      · contradiction
      · rename_i asked
        cases answered
        exact ⟨.version, asked, kept (length_of_operationOf asked)⟩
      · rename_i asked
        cases answered
        refine ⟨.byName, asked, kept ?_⟩
        rw [length_of_operationOf asked, length_answerByName]
        rfl
      · rename_i asked
        split at answered
        · rename_i field found
          cases answered
          refine ⟨.byIndex, asked, kept ?_⟩
          rw [length_of_operationOf asked, length_answerByIndex found]
          rfl
        · contradiction

end OptionQuery

namespace Session

open OptionQuery

variable {σ : Type} [ForeignStorage σ] {session : Session σ}

theorem Reachable.capacity_le {rule : Session σ → Operation σ → Prop}
    (reachable : session.Reachable rule) : session.table.capacity ≤ 65534 := by
  refine Reachable.induction (fun session => session.table.capacity ≤ 65534) ?_ ?_ reachable
  · intro settings loader
    have slots : (Table.empty settings.capacity : Table σ).capacity = settings.capacity :=
      Array.size_replicate
    exact slots ▸ settings.capacity_le
  · intro session operation bound _
    exact (session.after_reform operation).capacity ▸ bound

/-- Queries that are answered in place leave the table alone, and the buffer as well if they fail;
what they write is what they are answered without a buffer. A set is found under its name and its
name under its slot; the handle for a name that no set has is not a slot. -/
theorem queries_translate (reachable : session.Reachable Unrestricted) :
    (∀ privileged option buffer result table changed,
      (answerInPlace privileged option).run.run (session.table, buffer) =
        (result, (table, changed)) →
      table = session.table ∧ match result with
        | .error fault => changed = buffer ∧
            answer session.table privileged option buffer = .error fault
        | .ok () => answer session.table privileged option buffer = .ok changed ∧
            ∃ operation, operationOf buffer = .ok operation ∧ changed.length = buffer.length ∧
              changed.take operation.answerStart = buffer.take operation.answerStart) ∧
    (∀ slot entry, session.table.get? slot = some entry → slot < Table.invalidHandle ∧
      (∃ field, Replies session.table .byName entry.name.field field ∧ indexOf field = slot) ∧
      ∀ field, field.length = SetName.fieldWidth → indexOf field = slot →
        Replies session.table .byIndex field entry.name.field) ∧
    ∀ name : SetName, (∀ slot entry, session.table.get? slot = some entry → entry.name ≠ name) →
      ∃ field, Replies session.table .byName name.field field ∧
        indexOf field = Table.invalidHandle := by
  refine ⟨?_, ?_, ?_⟩
  · intro privileged option buffer result table changed run
    rw [run_answerInPlace] at run
    cases answered : answer session.table privileged option buffer with
    | error fault =>
        rw [answered] at run
        cases run
        exact ⟨rfl, rfl, rfl⟩
    | ok written =>
        rw [answered] at run
        cases run
        exact ⟨rfl, rfl, answer_ok answered⟩
  · intro slot entry occupied
    have found : session.table.find? entry.name.text = some slot :=
      (Table.get_of_lookup (reachable.namesDistinct.lookup_iff.mpr ⟨occupied, rfl⟩)).1
    have below : slot < Table.invalidHandle :=
      Nat.lt_of_lt_of_le (Table.lt_capacity_of_get occupied)
        (Nat.le_succ_of_le reachable.capacity_le)
    refine ⟨below, ⟨_, replies_byName _ _, ?_⟩, ?_⟩
    · rw [found]
      exact indexOf_indexField (Nat.lt_succ_of_lt below)
    · rintro field long rfl
      exact replies_byIndex long occupied
  · intro name unused
    have absent : session.table.find? name.text = none :=
      Table.find_eq_none_iff.mpr fun slot entry occupied same =>
        unused slot entry occupied (SetName.eq_of_text same)
    refine ⟨_, replies_byName _ _, ?_⟩
    rw [absent]
    exact indexOf_indexField (by decide)

theorem queries_translate_shared :
    shared.Reachable Unrestricted ∧ ∃ entry, shared.table.get? 0 = some entry ∧
      entry.name = memberName ∧
      (∃ field, Replies shared.table .byName memberName.field field ∧ indexOf field = 0) ∧
      Replies shared.table .byIndex (indexField 0) memberName.field := by
  have reachable : shared.Reachable Unrestricted := shared_reachable.mono fun _ _ _ => trivial
  have known : shared.table.name? 0 = some memberName := by decide +kernel
  obtain ⟨entry, occupied, named⟩ := Option.map_eq_some_iff.mp known
  obtain ⟨-, there, back⟩ := (queries_translate reachable).2.1 0 entry occupied
  rw [named] at there back
  exact ⟨reachable, entry, occupied, named, there,
    back (indexField 0) (length_indexField 0) (indexOf_indexField (by decide))⟩

end Session

end NamedSets
