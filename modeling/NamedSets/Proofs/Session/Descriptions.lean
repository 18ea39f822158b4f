import NamedSets.Proofs.Message.Received
import NamedSets.Proofs.Session.Names

/-!
# Descriptions of sets

A set is described by its name and by the name, the family and the revision of its type. Whoever
reads the description finds them there, unless the name of the type is not one that a set could
have: types are registered under any name, and readers take names of sets only.
-/

namespace NamedSets

namespace Engine

open Attr (Tree)
open Message (Argument Draft Report Request Segment)

variable {σ : Type} {engine : Engine σ} {request : Request} {entry : Entry σ} {slot : Nat}

structure Describes (reply : Request) (entry : Entry σ) : Prop where
  name : reply.setName? = some entry.name
  typeName : reply.typeName?.map SetName.text = some entry.type.name
  family : reply.family? = some entry.family.code
  revision : reply.revision? = some entry.type.revision

/-- The first message of an answer is read as one reply, which describes the set. -/
def Answer.Describes (answer : Answer) (entry : Entry σ) : Prop :=
  ∃ message acknowledgement reply, answer = .messages (message :: acknowledgement) ∧
    Segment.readAll message = .ok [.request reply] ∧ Engine.Describes reply entry

theorem reply_of_fits {trees : List Tree}
    (fits : Request.headLength +
      Tree.sizeAll ((Argument.protocol protocolVersion).tree :: trees) ≤ 512) :
    engine.reply request trees =
      .ok ((Draft.blank engine.settings.messageSize request.command 0 request.header.sequence
        request.header.sender).adding ((Argument.protocol protocolVersion).tree :: trees)).finish := by
  have large := engine.settings.messageSize_bounds.1
  simp only [Tree.sizeAll] at fits
  rw [reply, Draft.start_bind (by omega), Draft.put_bind (by rw [Draft.room_blank]; omega),
    Draft.putAll_of_fits (by simp only [Draft.room_adding, Draft.room_blank, Tree.sizeAll]; omega),
    Draft.adding_adding, List.singleton_append]

/-- A short reply is read as the arguments that were written into it. -/
theorem exists_reply (engine : Engine σ) (request : Request) {arguments : List Argument}
    (tagged : ∀ argument ∈ arguments, argument.WellTagged)
    (fits : Request.headLength +
      Tree.sizeAll ((Argument.protocol protocolVersion :: arguments).map Argument.tree) ≤ 512) :
    ∃ message reply, engine.reply request (arguments.map Argument.tree) = .ok message ∧
      Segment.readAll message = .ok [.request reply] ∧
      reply.arguments = .protocol protocolVersion :: arguments := by
  have meaning : List.Forall₂ Argument.Means
      ((Argument.protocol protocolVersion :: arguments).map Argument.tree)
      (.protocol protocolVersion :: arguments) := by
    rw [List.forall₂_map_left_iff, List.forall₂_same]
    exact List.forall_mem_cons.mpr ⟨Argument.means_tree trivial,
      fun argument present => Argument.means_tree (tagged argument present)⟩
  exact ⟨_, _, reply_of_fits fits,
    Draft.readAll_finish _ _ _ _ _ meaning (Nat.lt_of_le_of_lt fits (by decide)), rfl⟩

theorem size_name (number : BitVec 14) (name : SetName) : (Tree.text number name.text).size ≤ 36 := by
  have short := name.short
  simp only [Tree.text, Tree.size, List.length_append, List.length_singleton, Bytes.aligned]
  omega

/-- A set of a type whose name could be that of a set is described. -/
theorem exists_replyHeader {typeName : SetName} (named : request.setName? = some entry.name)
    (found : engine.table.lookup? entry.name.text = some (slot, entry))
    (typed : typeName.text = entry.type.name) :
    ∃ message reply, engine.replyHeader request = .ok message ∧
      Segment.readAll message = .ok [.request reply] ∧ Describes reply entry := by
  have fits : Request.headLength + Tree.sizeAll ((Argument.protocol protocolVersion :: [
      .setName entry.name, .typeName typeName, .family entry.family.code,
      .revision entry.type.revision]).map Argument.tree) ≤ 512 := by
    have name := size_name Argument.setNameNumber entry.name
    have type := size_name Argument.typeNameNumber typeName
    simp only [List.map_cons, List.map_nil, Tree.sizeAll, Argument.tree, Tree.octet, Tree.size,
      List.length_singleton, Bytes.aligned, Request.headLength]
    omega
  obtain ⟨message, reply, written, read, arguments⟩ :=
    exists_reply engine request (by simp [Argument.WellTagged]) fits
  refine ⟨message, reply, ?_, read, ?_⟩
  · simp only [replyHeader, requiredName, named, found, bind, Except.bind, ← typed]
    exact written
  · constructor <;>
      simp [arguments, Request.setName?, Request.typeName?, Request.family?, Request.revision?, typed]

variable [ForeignStorage σ]

/-- A request for a description is answered by it, or by a report of why there is none. -/
theorem handle_header {privileged : Bool} (allowed : check privileged request = .ok ())
    (asked : request.command = .header) :
    (∀ message, engine.replyHeader request = .ok message → ∃ acknowledgement,
      (engine.handle privileged request).2.2 = .messages (message :: acknowledgement)) ∧
    ∀ fault, engine.replyHeader request = .error fault →
      (engine.handle privileged request).2.2 =
        .messages [(Report.answer request (some fault)).encode] := by
  constructor
  · intro message replied
    exact ⟨_, by simp only [handle, allowed, dispatch, asked, replied, Except.map]; rfl⟩
  · intro fault refused
    simp only [handle, allowed, dispatch, asked, refused, Except.map]

/-- The set that a creation comes to has the name that was asked for and a type of the name that
was asked for. -/
theorem get_of_create {creation : Creation} (created : (engine.create creation).2 = .ok slot) :
    ∃ entry, (engine.create creation).1.table.get? slot = some entry ∧
      entry.name = creation.name ∧ entry.type.name = creation.typeName := by
  obtain ⟨fault, -, refused⟩ | ⟨type, storage, known, -, table, answer⟩ :=
    engine.create_cases creation
  · cases refused.symm.trans created
  · have typed : type.name = creation.typeName :=
      (Catalog.lookupOrLoad_key known).1
    rw [answer] at created
    rw [table]
    obtain ⟨id, entry, found, met⟩ | ⟨-, -, full⟩ | ⟨id, -, free, made⟩ :=
      Table.create_cases engine.table creation.forTable type storage
    · rw [met] at created ⊢
      split at created
      · rename_i equal
        cases created
        obtain ⟨-, there, named⟩ := Table.get_of_lookup found
        simp only [Table.Creation.isMetBy, Bool.and_eq_true, decide_eq_true_eq] at equal
        exact ⟨entry, there, SetName.eq_of_text named, equal.1.1.1.2.trans typed⟩
      · contradiction
    · rw [full] at created
      contradiction
    · rw [made] at created ⊢
      cases created
      refine ⟨creation.forTable.newSet type storage, ?_, rfl, typed⟩
      rw [Table.get_set_inside (Table.get_eq_none_of_free free).2.1, if_pos rfl]

end Engine

namespace Session

open Message (Argument Request Segment)

variable {σ : Type} [ForeignStorage σ] {session : Session σ}

/-- Whatever types were registered, a set is made under the name and the type that were asked
for. A request for the description of a set is answered by it exactly if the name of its type
could be the name of a set. -/
theorem sets_described (reachable : session.Reachable Unrestricted) :
    (∀ creation slot, (session.engine.create creation).2 = .ok slot →
      ∃ entry, (session.after (.create creation)).table.get? slot = some entry ∧
        entry.name = creation.name ∧ entry.type.name = creation.typeName) ∧
    ∀ slot entry, session.table.get? slot = some entry → ∀ request : Request,
      request.command = .header → request.protocol? = some protocolVersion →
      request.setName? = some entry.name →
      ((session.engine.handle true request).2.2.Describes entry ↔
        ∃ typeName : SetName, typeName.text = entry.type.name) := by
  refine ⟨fun creation slot created => Engine.get_of_create created, ?_⟩
  intro slot entry occupied request asked current named
  have found : session.engine.table.lookup? entry.name.text = some (slot, entry) :=
    reachable.namesDistinct.lookup_iff.mpr ⟨occupied, rfl⟩
  have allowed : Engine.check true request = .ok () := by
    simp only [Engine.check, if_true, current]
  constructor
  · rintro ⟨message, acknowledgement, reply, -, -, describes⟩
    obtain ⟨typeName, -, typed⟩ := Option.map_eq_some_iff.mp describes.typeName
    exact ⟨typeName, typed⟩
  · rintro ⟨typeName, typed⟩
    obtain ⟨message, reply, replied, read, describes⟩ :=
      Engine.exists_replyHeader named found typed
    obtain ⟨acknowledgement, answered⟩ := (Engine.handle_header allowed asked).1 message replied
    exact ⟨message, acknowledgement, reply, answered, read, describes⟩

def renamedHash (name : String) : SetType Empty := { SetType.addressHash with name }

def renamed (typeName : String) : Session Empty :=
  ((fresh { maxSets := 4 } .absent).after (.register (renamedHash typeName))).after
    (creating memberName typeName)

def describing (name : SetName) : Request :=
  .compose .header 1 9 0 [.protocol protocolVersion, .setName name]

theorem renamed_reachable (typeName : String) : (renamed typeName).Reachable Unrestricted := by
  have initial : (fresh { maxSets := 4 } .absent : Session Empty).Reachable Unrestricted :=
    .fresh Unrestricted { maxSets := 4 } .absent
  exact (initial.after _ trivial).after _ trivial

theorem sets_described_renamed :
    (renamed "hash:net").Reachable Unrestricted ∧
    ∃ entry, (renamed "hash:net").table.get? 0 = some entry ∧
      entry.type.name = "hash:net" ∧
      ((renamed "hash:net").engine.handle true (describing memberName)).2.2.Describes entry := by
  have reachable := renamed_reachable "hash:net"
  cases occupied : (renamed "hash:net").table.get? 0 with
  | none =>
      have there : ((renamed "hash:net").table.get? 0).isSome := by decide +kernel
      simp [occupied] at there
  | some entry =>
      have known : ((renamed "hash:net").table.get? 0).map (fun entry =>
          (entry.name, entry.type.name)) = some (memberName, "hash:net") := by decide +kernel
      simp only [occupied, Option.map_some, Option.some.injEq, Prod.mk.injEq] at known
      obtain ⟨named, typed⟩ := known
      have asked : (describing memberName).setName? = some entry.name := by rw [named]; rfl
      refine ⟨reachable, entry, rfl, typed, ?_⟩
      refine ((sets_described reachable).2 0 entry occupied _ rfl rfl asked).mpr ?_
      exact ⟨⟨"hash:net", by decide, by decide, by decide⟩, typed.symm⟩

/-- A name of 32 bytes, one more than the name of a set may have. -/
def longTypeName : String := "aaaaaaaaaaaaaaaaaaaaaaaaaaaaaaaa"

/-- The type is accepted, the set is made, and its description cannot be read. -/
theorem renamed_unreadable :
    ((fresh { maxSets := 4 } .absent).engine.catalog.register
      (renamedHash longTypeName)).isOk = true ∧
    (((fresh { maxSets := 4 } .absent).after (.register (renamedHash longTypeName))).engine.create {
      name := memberName, typeName := longTypeName, family := .ipv4, revision := 0, data := []
      allowExisting := false }).2 = .ok 0 ∧
    ∃ message, ((renamed longTypeName).engine.handle true (describing memberName)).2.2 =
        .messages [message] ∧
      Segment.readAll message = .error .attributeLength := by
  exact ⟨by decide +kernel, by decide +kernel,
    ((renamed longTypeName).engine.replyHeader (describing memberName)).toOption.getD [],
    by decide +kernel, by decide +kernel⟩

end Session

end NamedSets
