import NamedSets.Proofs.Dump.Steps

/-!
# What a step of a dump comes to

Whatever types there are, a step of a dump sends a message that starts with the name of the set
that the dump has come to, or the message that ends the dump, or it fails, or it does nothing
any more. A storage from outside has no say in this: it writes inside the nest that is open.
-/

namespace NamedSets

open Message (Argument Command Draft Header)

variable {σ : Type} [ForeignStorage σ] {draft later : Draft}

/-- What storages from outside write stays inside the nest that is open for it. -/
class ForeignStorage.Contained (σ : Type) [ForeignStorage σ] : Prop where
  describe : ∀ (storage : σ) (draft : Draft),
    draft.Encloses (ForeignStorage.describe storage draft).1
  list : ∀ (storage : σ) (cursor : Nat) (draft : Draft),
    draft.Encloses (ForeignStorage.list storage cursor draft).1

instance : ForeignStorage.Contained Empty where
  describe storage := nomatch storage
  list storage := nomatch storage

/-! ## Messages about sets -/

variable [ForeignStorage.Contained σ] {table : Table σ} {entry : Entry σ}

theorem Storage.describe_encloses (storage : Storage σ) (draft : Draft) :
    draft.Encloses (storage.describe draft).1 := by
  cases storage with
  | hash hash => exact Draft.putAll_encloses _ _
  | list list => exact Draft.putAll_encloses _ _
  | foreign storage => exact ForeignStorage.Contained.describe storage draft

omit [ForeignStorage σ] [ForeignStorage.Contained σ] in
theorem Table.write_encloses (draft : Draft) (cursor : Nat)
    (entries : List (Option Attr.Tree × Nat)) :
    draft.Encloses (Table.write draft cursor entries).1 := by
  induction entries generalizing draft cursor with
  | nil => exact ⟨rfl, rfl, rfl, rfl, List.suffix_refl _⟩
  | cons first rest ih =>
      obtain ⟨tree?, next⟩ := first
      cases tree? with
      | none => exact ih draft next
      | some tree =>
          simp only [Table.write]
          split
          · rename_i written put
            have others := ih written next
            rw [Draft.put_cases put] at others ⊢
            exact ⟨others.command, others.flags, others.sequence, others.sender, others.nests⟩
          · exact ⟨rfl, rfl, rfl, rfl, List.suffix_refl _⟩

theorem Table.list_encloses (table : Table σ) (storage : Storage σ) (cursor : Nat)
    (draft : Draft) : draft.Encloses (table.list storage cursor draft).1 := by
  cases storage with
  | hash hash => exact Table.write_encloses _ _ _
  | list list => exact Table.write_encloses _ _ _
  | foreign storage => exact ForeignStorage.Contained.list _ cursor draft

namespace Dump

theorem describe_continues (described : describe entry draft = .ok later) :
    draft.Continues later := by
  obtain ⟨named, put, described⟩ := ok_of_bind described
  obtain ⟨typed, putFamily, described⟩ := ok_of_bind described
  obtain ⟨revised, putRevision, described⟩ := ok_of_bind described
  obtain ⟨opened, open', described⟩ := ok_of_bind described
  obtain ⟨continues, inside⟩ := Draft.openNest_continues open'
  have head := (((Draft.put_continues put).trans (Draft.put_continues putFamily)).trans
    (Draft.put_continues putRevision)).trans continues
  have inner := (entry.storage.describe_encloses opened).continues inside
  split at described
  · contradiction
  · rename_i written same
    rw [same] at inner
    obtain ⟨counted, putReferences, described⟩ := ok_of_bind described
    cases described
    exact ((head.trans inner).trans (Draft.put_continues putReferences)).trans
      (Draft.closeNest_continues counted)

def Names (dump : Dump) (name : SetName) (bytes : Bytes) : Prop :=
  ∃ (header : Header) (rest : Bytes),
    bytes = header.encode ++ (Draft.replyBody.encode ++ (Attr.Tree.encodeAll
      [(Argument.protocol protocolVersion).tree, (Argument.setName name).tree] ++ rest)) ∧
    header.messageType = Command.list.messageType ∧ header.flags = Header.multipart ∧
    header.sequence = dump.sequence ∧ header.sender = dump.sender

omit [ForeignStorage σ] [ForeignStorage.Contained σ] in
theorem Names.congr {dump later : Dump} {name : SetName} {bytes : Bytes}
    (sequence : later.sequence = dump.sequence) (sender : later.sender = dump.sender)
    (names : later.Names name bytes) : dump.Names name bytes := by
  unfold Names at names ⊢
  rwa [sequence, sender] at names

structure Heads (dump : Dump) (name : SetName) (draft : Draft) : Prop where
  root : [(Argument.protocol protocolVersion).tree, (Argument.setName name).tree] <+: draft.root
  command : draft.command = .list
  flags : draft.flags = Header.multipart
  sequence : draft.sequence = dump.sequence
  sender : draft.sender = dump.sender

omit [ForeignStorage σ] [ForeignStorage.Contained σ] in
theorem Heads.continues {dump : Dump} {name : SetName} (heads : dump.Heads name draft)
    (continues : draft.Continues later) : dump.Heads name later where
  root := heads.root.trans continues.root
  command := continues.command.trans heads.command
  flags := continues.flags.trans heads.flags
  sequence := continues.sequence.trans heads.sequence
  sender := continues.sender.trans heads.sender

omit [ForeignStorage σ] [ForeignStorage.Contained σ] in
theorem Heads.names {dump : Dump} {name : SetName} (heads : dump.Heads name draft) :
    dump.Names name draft.finish := by
  obtain ⟨header, rest, finished, command, flags, sequence, sender⟩ := draft.exists_finish
  obtain ⟨more, starts⟩ := heads.root
  refine ⟨header, Attr.Tree.encodeAll more ++ rest, ?_, ?_, ?_, ?_, ?_⟩
  · rw [finished, ← starts, Attr.Tree.encodeAll_append, List.append_assoc]
  · rw [command, heads.command]
  · rw [flags, heads.flags]
  · rw [sequence, heads.sequence]
  · rw [sender, heads.sender]

/-- The elements of the set do not change what its message is about. -/
theorem Heads.listed {dump : Dump} {name : SetName} {opened listed : Draft} {start cursor : Nat}
    {result : Except Fault Progress} (heads : dump.Heads name draft)
    (open' : draft.openNest { number := Argument.batchNumber } = .ok opened)
    (same : table.list entry.storage start opened = (listed, cursor, result)) :
    dump.Names name listed.closeNest.finish := by
  obtain ⟨continues, inside⟩ := Draft.openNest_continues open'
  have inner := (table.list_encloses entry.storage start opened).continues inside
  rw [same] at inner
  have whole := ((heads.continues continues).continues inner).continues
    (Draft.closeNest_continues listed)
  exact whole.names

theorem message_names {dump : Dump} {limit start next : Nat} {first : Bool} {bytes : Bytes}
    {progress : Progress}
    (written : dump.message table entry limit first start = .ok (bytes, next, progress)) :
    dump.Names entry.name bytes := by
  obtain ⟨blank, started, written⟩ := ok_of_bind written
  obtain ⟨versioned, putVersion, written⟩ := ok_of_bind written
  obtain ⟨named, putName, written⟩ := ok_of_bind written
  have heads : dump.Heads entry.name named := by
    unfold Draft.start at started
    split at started
    · contradiction
    · cases started
      rw [Draft.put_cases putName, Draft.put_cases putVersion]
      exact ⟨List.prefix_rfl, rfl, rfl, rfl, rfl⟩
  -- The first message describes the set before it lists elements.
  cases first with
  | true =>
      obtain ⟨described, describes, written⟩ := ok_of_bind written
      obtain ⟨opened, open', written⟩ := ok_of_bind written
      split at written
      · contradiction
      · rename_i same
        cases written
        exact (heads.continues (describe_continues describes)).listed open' same
  | false =>
      obtain ⟨described, kept, written⟩ := ok_of_bind written
      cases kept
      obtain ⟨opened, open', written⟩ := ok_of_bind written
      split at written
      · contradiction
      · rename_i same
        cases written
        exact heads.listed open' same

/-! ## Steps -/

inductive Outcome (dump : Dump) (table : Table σ) : Dump → Except Fault (Option Bytes) → Prop
  | spent (finished : dump.finished = true) : Outcome dump table dump (.ok none)
  | failed (found : Dump) (fault : Fault) (going : dump.finished = false)
      (same : found = { dump with mode := found.mode, slot := found.slot }) :
      Outcome dump table { found with cursor := none, finished := true } (.error fault)
  | ended (found : Dump) (going : dump.finished = false)
      (sought : dump.seek table = .ok (found, none)) :
      Outcome dump table { found with finished := true }
        (.ok (some (Message.Done.encode dump.sequence dump.sender 0)))
  | told (found later : Dump) (entry : Entry σ) (bytes : Bytes) (going : dump.finished = false)
      (sought : dump.seek table = .ok (found, some entry))
      (names : dump.Names entry.name bytes)
      (goes : (∃ next, later = { found with cursor := some next }) ∨ later = found.leave table) :
      Outcome dump table later (.ok (some bytes))

variable {dump found : Dump} {limit : Nat}

omit [ForeignStorage σ] [ForeignStorage.Contained σ] in
theorem abort_eq (dump : Dump) (table : Table σ) :
    (dump.abort table).2 = { dump with cursor := none, finished := true } := by
  obtain ⟨idle, released⟩ | ⟨-, released⟩ := dump.release_cases table
  · simp [abort, released, idle]
  · simp [abort, released]

omit [ForeignStorage.Contained σ] in
theorem advance_failed {fault : Fault}
    (failed : message { dump with cursor := some dump.place } (dump.holding table)
      (dump.shown entry) limit dump.cursor.isNone dump.place = .error fault) :
    (dump.advance table entry limit).2 =
      ({ dump with cursor := none, finished := true }, .error fault) := by
  cases started : dump.cursor <;>
    simp only [place, started, holding, shown, Option.isNone_none, Option.isNone_some,
      Option.getD_none, Option.getD_some, if_true, Bool.false_eq_true, if_false] at failed <;>
    simp [advance, started, failed, abort_eq]

omit [ForeignStorage.Contained σ] in
/-- After the first message about a set, one without an element ends the dump. -/
theorem advance_stuck {bytes : Bytes} (started : dump.cursor.isSome)
    (sent : message { dump with cursor := some dump.place } (dump.holding table)
      (dump.shown entry) limit dump.cursor.isNone dump.place = .ok (bytes, dump.place, .more)) :
    (dump.advance table entry limit).2 =
      ({ dump with cursor := none, finished := true }, .error .elementDoesNotFit) := by
  obtain ⟨start, started⟩ := Option.isSome_iff_exists.mp started
  simp only [place, started, holding, shown, Option.isNone_some, Option.getD_some,
    Bool.false_eq_true, if_false] at sent
  simp [advance, started, sent, abort_eq]

/-- A message about the set that a dump has come to names it, and the dump goes on with the set
or leaves it. -/
theorem advance_outcome (dump : Dump) (table : Table σ) (entry : Entry σ) (limit : Nat) :
    (∃ fault, (dump.advance table entry limit).2 =
      ({ dump with cursor := none, finished := true }, .error fault)) ∨
    ∃ later bytes, (dump.advance table entry limit).2 = (later, .ok (some bytes)) ∧
      dump.Names entry.name bytes ∧
      ((∃ next, later = { dump with cursor := some next }) ∨ later = dump.leave table) := by
  have shown : (dump.shown entry).name = entry.name := by
    unfold Dump.shown
    split <;> rfl
  cases sent : message { dump with cursor := some dump.place } (dump.holding table)
      (dump.shown entry) limit dump.cursor.isNone dump.place with
  | error fault => exact .inl ⟨fault, advance_failed sent⟩
  | ok written =>
      obtain ⟨bytes, next, progress⟩ := written
      have names := message_names sent
      rw [shown] at names
      cases progress with
      | done => exact .inr ⟨_, bytes, by rw [advance_done sent], names, .inr rfl⟩
      | more =>
          by_cases stuck : dump.cursor.isSome ∧ next = dump.place
          · obtain ⟨started, rfl⟩ := stuck
            exact .inl ⟨_, advance_stuck started sent⟩
          · have further : dump.cursor.isSome → next ≠ dump.place := not_and.mp stuck
            exact .inr ⟨_, bytes, by rw [advance_more further sent], names, .inl ⟨next, rfl⟩⟩

theorem step_outcome (dump : Dump) (table : Table σ) (limit : Nat) :
    Outcome dump table (dump.step table limit).2.1 (dump.step table limit).2.2 := by
  by_cases finished : dump.finished
  · simp only [step, if_pos finished]
    exact .spent finished
  · simp only [step, if_neg finished]
    have going : dump.finished = false := by simpa using finished
    cases sought : dump.seek table with
    | error fault =>
        simp only [abort_eq]
        exact .failed dump fault going rfl
    | ok outcome =>
        obtain ⟨found, reached⟩ := outcome
        have same := seek_eq sought
        cases reached with
        | none =>
            have told : Message.Done.encode found.sequence found.sender 0 =
                Message.Done.encode dump.sequence dump.sender 0 := by rw [same]
            simp only [told]
            exact .ended found going sought
        | some entry =>
            obtain ⟨fault, failed⟩ | ⟨later, bytes, sent, names, goes⟩ :=
              found.advance_outcome table entry limit
            · simp only [failed]
              exact .failed found fault going same
            · simp only [sent]
              rw [same] at names
              exact .told found later entry bytes going sought names goes

omit [ForeignStorage σ] [ForeignStorage.Contained σ] in
/-- A step keeps who the messages of the dump are for. -/
theorem Outcome.addressed {later : Dump} {result : Except Fault (Option Bytes)}
    (outcome : Outcome dump table later result) :
    later.sequence = dump.sequence ∧ later.sender = dump.sender := by
  cases outcome with
  | spent => exact ⟨rfl, rfl⟩
  | failed found fault going same =>
      rw [same]
      exact ⟨rfl, rfl⟩
  | ended found going sought =>
      rw [seek_eq sought]
      exact ⟨rfl, rfl⟩
  | told found later entry bytes going sought names goes =>
      rw [seek_eq sought] at goes
      obtain ⟨next, rfl⟩ | rfl := goes <;> exact ⟨rfl, rfl⟩

omit [ForeignStorage σ] [ForeignStorage.Contained σ] in
/-- A dump that is over has given its reference back. -/
theorem Outcome.idle {later : Dump} {result : Except Fault (Option Bytes)}
    (outcome : Outcome dump table later result) (going : dump.finished = false)
    (placed : dump.Placed table) (finished : later.finished = true) : later.cursor = none := by
  cases outcome with
  | spent already => simp [going] at already
  | failed => rfl
  | ended found _ sought =>
      have idle : dump.cursor = none := placed.idle (by simp [sought])
      exact (seek_ok sought).1.trans idle
  | told found later entry bytes _ sought names goes =>
      rw [seek_eq sought] at goes
      obtain ⟨next, rfl⟩ | rfl := goes
      · simp [going] at finished
      · rfl

end Dump

end NamedSets
