import NamedSets.Proofs.Dump.Parameters
import NamedSets.Proofs.Engine.Outcomes
import NamedSets.Proofs.Session.Undisturbed
import NamedSets.Proofs.Table.Restoring

/-!
# Saving and restoring

The pages of an undisturbed dump of a single set are all that it takes to make the set again.
Asked for once more under its own name, the set is found; under another name it comes to the
same parameters and elements in a new slot.
-/

namespace NamedSets

/-- The creation that the first page about a set describes, under some name. -/
def Page.creation? (page : Page) (name : SetName) (allowExisting : Bool) :
    Option Engine.Creation := do
  let description ← page.description
  let family ← (Family.ofCode description.family).toOption
  let data ← (Datum.readAll .set description.parameters).toOption
  some {
    name, typeName := description.typeName.text, family, revision := description.revision, data
    allowExisting }

variable {σ : Type} {entry : Entry σ} {slot : Nat}

def Entry.creation (entry : Entry σ) (name : SetName) (allowExisting : Bool) :
    Engine.Creation where
  name
  typeName := entry.type.name
  family := entry.family
  revision := entry.type.revision
  data := entry.storage.creationData
  allowExisting

theorem Description.Describes.creation {page : Page} {description : Description}
    {references : UInt32} (tells : description.Describes entry references)
    (described : page.description = some description)
    (read : Datum.readAll .set description.parameters = .ok entry.storage.creationData)
    (name : SetName) (allowExisting : Bool) :
    page.creation? name allowExisting = some (entry.creation name allowExisting) := by
  simp [Page.creation?, described, tells.family, tells.typeName, tells.revision, read,
    Entry.creation, Except.toOption]

variable [ForeignStorage σ]

/-- As long as a type can be found, a creation like that of a set comes to the table. -/
theorem Engine.create_creation {engine : Engine σ} (builtin : engine.catalog.Builtin)
    (loads : engine.catalog.loader.supplies entry.type.name = true) (valid : entry.Valid)
    (regular : entry.storage.Regular entry.family) (name : SetName) (allowExisting : Bool) :
    (engine.create (entry.creation name allowExisting)).1.table =
        (engine.table.create { name, family := entry.family, allowExisting } entry.type
          entry.storage.emptied).1 ∧
      (engine.create (entry.creation name allowExisting)).2 =
        (engine.table.create { name, family := entry.family, allowExisting } entry.type
          entry.storage.emptied).2 := by
  have known := builtin.lookupOrLoad_name loads (valid.builtin trivial).type entry.family
  have made := entry.make_creationData (valid.builtin trivial) regular
  exact create_made known made

namespace Session

variable {session : Session σ} {operation : Operation σ} {request : Message.Request}
  {dump final : Dump} {index : Nat}

theorem Reachable.regular {rule : Session σ → Operation σ → Prop}
    (reachable : session.Reachable rule) :
    session.table.Throughout fun family storage => storage.Regular family :=
  reachable.induction (fun session => session.table.Throughout fun family storage =>
      storage.Regular family)
    (fun settings _ => .empty settings.capacity)
    fun session operation regular _ =>
      regular.course Table.lasting_regular (session.after_course operation)

/-- What a dump of a single set sends: a chapter about the set, the first page of which is read
as a creation of a set like it. -/
theorem sending_single (reachable : session.Reachable Balanced)
    (opens : session.Opens operation request dump)
    (asked : request.setName? = some entry.name) (found : session.table.get? slot = some entry)
    (room : ∀ slot, session.references slot + 1 < UInt32.size) :
    ∃ messages first rest ended,
      Dump.Sending session.engine.settings.messageSize session.table dump
        (messages ++ [Message.Done.encode request.header.sequence request.header.sender 0])
        session.table ended ∧ ended.finished = true ∧
      List.Forall₂ (Carries session.engine.settings.messageSize) messages (first :: rest) ∧
      Chapter request.header.sequence request.header.sender session.table entry (first :: rest) ∧
      ∀ name allowExisting,
        first.creation? name allowExisting = some (entry.creation name allowExisting) := by
  obtain ⟨started, -⟩ := opens.spec
  obtain ⟨large, small⟩ := session.engine.settings.messageSize_bounds
  have all := reachable.allListable
  obtain ⟨idle, going, sequence, sender, ⟨unnamed, -⟩ | ⟨name, named, mode, looked⟩⟩ :=
    Engine.dumpOf_cases started
  · rw [asked] at unnamed
    contradiction
  cases asked.symm.trans named
  have here : session.table.find? entry.name.text = some slot :=
    (Table.get_of_lookup (reachable.namesDistinct.lookup_iff.mpr ⟨found, rfl⟩)).1
  cases here.symm.trans looked
  have inside := Table.lt_capacity_of_get found
  have sought : dump.seek session.table = .ok (dump, some entry) := by
    simp only [Dump.seek, mode, if_neg (Nat.not_le.mpr inside), found]
  have visited : session.dumpedSlots request = [dump.slot] := by
    simp only [dumpedSlots, asked, here, Option.toList_some]
  obtain ⟨messages, chapters, ended, sending, spent, carried, told⟩ :=
    Dump.sending_chapters all (reachable.sound.room Nat.one_pos room) large small going idle
      fun _ _ => ⟨entry, found⟩
  rw [sequence, sender] at sending told
  rw [upcoming_opened started, visited] at told
  obtain ⟨pages, others, ⟨other, there, chapter⟩, nothing, rfl⟩ :=
    List.forall₂_cons_left_iff.mp told
  cases List.forall₂_nil_left_iff.mp nothing
  cases found.symm.trans there
  obtain ⟨first, rest, description, rfl, described, tells, -⟩ := chapter.described
  rw [List.flatten_singleton] at carried
  refine ⟨messages, first, rest, ended, sending, spent, carried, chapter, ?_⟩
  -- The chapter does not say what the parameters are, but the first step of the dump does.
  cases carried with
  | cons head _ =>
      exact tells.creation described (sending.creationData all large small going sought head described)

/-- Saving and restoring are inverse. The messages that an undisturbed dump of a single set
answers leave the engine as it was. A creation with what the first one says finds the set and
changes no set. Under another name and in a free slot, it makes a set that accepts the elements in
all messages in order, without growing, and then has the parameters and the elements of the set. -/
theorem save_restores (reachable : session.Reachable Balanced)
    (loads : session.engine.catalog.loader.supplies entry.type.name = true)
    (opens : session.Opens operation request dump)
    (asked : request.setName? = some entry.name) (found : session.table.get? slot = some entry)
    (room : ∀ slot, session.references slot + 1 < UInt32.size) :
    ∃ (messages : List Bytes) (first : Page) (rest : List Page),
      (session.after operation).answers
          (List.replicate (messages.length + 2) (.stepDump session.dumps.length))
          session.dumps.length =
        messages.map (fun bytes => .ok (some bytes)) ++ [.ok (some (Message.Done.encode
          request.header.sequence request.header.sender 0)), .ok none] ∧
      ((session.after operation).run
          (List.replicate (messages.length + 2) (.stepDump session.dumps.length))).engine =
        session.engine ∧
      List.Forall₂ (Carries session.engine.settings.messageSize) messages (first :: rest) ∧
      (∃ again, first.creation? first.name true = some again ∧
        (session.engine.create again).1.table = session.table ∧
        (session.engine.create again).2 = .ok slot) ∧
      ∀ name free allowExisting, session.table.find? name.text = none →
        session.table.free? = some free →
          ∃ renewal created restored storage,
            first.creation? name allowExisting = some renewal ∧
            session.engine.create renewal = (created, .ok free) ∧
            created.table.addElements free ((first :: rest).flatMap (·.elements)) =
              (restored, .ok ()) ∧
            restored.storage? free = some storage ∧
            entry.storage.sameParameters storage = true ∧ entry.storage.SameElements storage := by
  obtain ⟨messages, first, rest, ended, sending, spent, carried, chapter, creation⟩ :=
    sending_single reachable opens asked found room
  obtain ⟨-, opened⟩ := opens.spec
  have sound := reachable.sound
  have regular := reachable.regular
  have names := reachable.namesDistinct
  have builtin : ∀ inner, entry.storage ≠ .foreign inner := fun _ => sound.table.not_foreign found
  have reaches (name : SetName) (allowExisting : Bool) :=
    Engine.create_creation sound.catalog loads (sound.table.valid found) (regular slot entry found)
      name allowExisting
  have count : (messages ++ [Message.Done.encode request.header.sequence request.header.sender
      0]).length + 1 = messages.length + 2 := by
    rw [List.length_append, List.length_singleton]
  obtain ⟨answers, engine⟩ :=
    steps_of_sending sending spent (by rw [opened]; rfl) (by rw [opened]) opens.here
  rw [count] at answers engine
  refine ⟨messages, first, rest, by simpa using answers, ?_, carried,
    ⟨_, creation first.name true, ?_⟩, ?_⟩
  · rw [engine, opened]
    rfl
  · have sameName := (chapter.marked first List.mem_cons_self).2.2
    have finds := Table.create_finds
      { name := first.name, family := entry.family, allowExisting := true } sound.table names found
      sameName rfl rfl
    obtain ⟨table, answer⟩ := reaches first.name true
    rw [table, answer]
    exact ⟨congrArg Prod.fst finds, congrArg Prod.snd finds⟩
  · intro name free allowExisting unused vacant
    obtain ⟨made, restored, created, added, there⟩ := Table.create_restores
      { name, family := entry.family, allowExisting } sound.table names
      reachable.hashesValid regular found unused vacant
    obtain ⟨table, answer⟩ := reaches name allowExisting
    rw [Session.table] at created
    rw [created] at table answer
    refine ⟨_, _, restored, _, creation name allowExisting, Prod.ext rfl answer, ?_, there,
      Storage.sameParameters_renewed builtin, Storage.sameElements_renewed builtin⟩
    rw [table, chapter.elements]
    exact added

/-! ## A hash that is saved and restored -/

/-- Addresses of which the last octet does not count, in a hash of a size that is no power of
two. -/
def maskedHash : Operation Empty :=
  .create {
    name := memberName, typeName := "hash:ip", family := .ipv4, revision := 0
    data := [.hashSize 100, .maxElements 5, .netmask 24], allowExisting := false }

def masked : Session Empty :=
  (((fresh { maxSets := 4 } .builtin).after maskedHash).after
    (.addElement 0 [.ip (.v4 0x0a000001)])).after (.addElement 0 [.ip (.v4 0x0a000107)])

def maskedStore : AddressHash where
  family := .ipv4
  elements := [(0, .v4 0x0a000000), (1, .v4 0x0a000100)]
  nextSequence := 2
  hashSize := 128
  maxElements := 5
  netmask := some 24

def saving : Message.Request where
  header := { length := 36, messageType := 0x608, flags := 0x301, sequence := 5, sender := 9 }
  body := { family := 0, version := 0, resource := 0 }
  command := .save
  arguments := [.protocol protocolVersion, .setName memberName]
  raw := []

def single : Dump where
  mode := .one
  slot := 0
  cursor := none
  sequence := 5
  sender := 9
  finished := false

theorem masked_reachable : masked.Reachable Balanced := by
  have initial : (fresh { maxSets := 4 } .builtin : Session Empty).Reachable Balanced :=
    .fresh Balanced { maxSets := 4 } .builtin
  have made := initial.after maskedHash (.of_few trivial (by decide +kernel))
  have first := made.after (.addElement 0 [.ip (.v4 0x0a000001)])
    (.of_few trivial (by decide +kernel))
  exact first.after (.addElement 0 [.ip (.v4 0x0a000107)]) (.of_few trivial (by decide +kernel))

def hash? : Storage Empty → Option AddressHash
  | .hash hash => some hash
  | _ => none

theorem storage_of_hash {storage : Storage Empty} {hash : AddressHash}
    (kept : hash? storage = some hash) : storage = .hash hash := by
  cases storage with
  | hash current =>
      cases kept
      rfl
  | list list => contradiction
  | foreign inner => exact inner.elim

theorem masked_found : ∃ entry, masked.table.get? 0 = some entry ∧ entry.name = memberName ∧
    entry.type.name = "hash:ip" ∧ entry.storage = .hash maskedStore := by
  have parts : (masked.table.get? 0).map (fun entry =>
      (entry.name, entry.type.name, hash? entry.storage)) =
        some (memberName, "hash:ip", some maskedStore) := by decide +kernel
  obtain ⟨entry, found, same⟩ := Option.map_eq_some_iff.mp parts
  simp only [Prod.mk.injEq] at same
  obtain ⟨name, typeName, stored⟩ := same
  exact ⟨entry, found, name, typeName, storage_of_hash stored⟩

theorem masked_opens : masked.Opens (.request true saving) saving single where
  asks := .request true
  opened := by decide +kernel

theorem save_restores_masked :
    masked.Reachable Balanced ∧ masked.Opens (.request true saving) saving single ∧
      masked.table.storage? 0 = some (.hash maskedStore) ∧
      ∃ (messages : List Bytes) (first : Page) (rest : List Page),
        (masked.after (.request true saving)).answers
            (List.replicate (messages.length + 2) (.stepDump 0)) 0 =
          messages.map (fun bytes => .ok (some bytes)) ++
            [.ok (some (Message.Done.encode 5 9 0)), .ok none] ∧
        List.Forall₂ (Carries 8192) messages (first :: rest) ∧
        (∃ again, first.creation? first.name true = some again ∧
          (masked.engine.create again).1.table = masked.table ∧
          (masked.engine.create again).2 = .ok 0) ∧
        ∃ renewal created restored hash, first.creation? listName false = some renewal ∧
          masked.engine.create renewal = (created, .ok 1) ∧
          created.table.addElements 1 ((first :: rest).flatMap (·.elements)) =
            (restored, .ok ()) ∧
          restored.storage? 1 = some (.hash hash) ∧ hash.hashSize = 128 ∧
          hash.maxElements = 5 ∧ hash.netmask = some 24 ∧
          hash.elements.map (·.2) = [.v4 0x0a000000, .v4 0x0a000100] := by
  obtain ⟨entry, found, name, typeName, stored⟩ := masked_found
  have asked : saving.setName? = some entry.name := by
    rw [name]
    rfl
  have room (slot : Nat) : masked.references slot + 1 < UInt32.size := by
    have few : masked.table.capacity + masked.dumps.length + masked.holds.length + 1 <
        UInt32.size := by decide +kernel
    have bound := masked.references_le slot
    omega
  have size : masked.engine.settings.messageSize = 8192 := by decide +kernel
  have loads : masked.engine.catalog.loader.supplies entry.type.name = true := by
    rw [typeName]
    decide +kernel
  have unused : masked.table.find? listName.text = none := by decide +kernel
  have vacant : masked.table.free? = some 1 := by decide +kernel
  obtain ⟨messages, first, rest, answers, -, carried, again, restores⟩ :=
    save_restores masked_reachable loads masked_opens asked found room
  obtain ⟨renewal, created, restored, storage, creates, made, added, there, parameters, elements⟩ :=
    restores listName 1 false unused vacant
  rw [size] at carried
  rw [stored] at parameters elements
  refine ⟨masked_reachable, masked_opens, Table.storage_of_get found stored, messages, first, rest,
    answers, carried, again, renewal, created, restored, ?_⟩
  cases storage with
  | hash hash =>
      simp only [Storage.sameParameters, AddressHash.sameParameters, Bool.and_eq_true,
        decide_eq_true_eq] at parameters
      obtain ⟨⟨hashSize, maxElements⟩, netmask⟩ := parameters
      exact ⟨hash, creates, made, added, there, hashSize.symm, maxElements.symm, netmask.symm,
        elements.symm⟩
  | list list => exact elements.elim
  | foreign inner => exact inner.elim

end Session

end NamedSets
