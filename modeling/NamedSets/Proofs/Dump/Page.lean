import NamedSets.Dump
import NamedSets.Engine.Changes
import NamedSets.Proofs.Catalog
import NamedSets.Proofs.Message.Reading
import NamedSets.Proofs.Table.Elements

namespace NamedSets

open Attr (Tree)
open Message (Argument Draft Request Segment)

variable {σ : Type} {table : Table σ} {storage : Storage σ} {entry : Entry σ}

/-- What the first message about a set says about it, besides its name. -/
structure Description where
  typeName : SetName
  family : UInt8
  revision : UInt8
  parameters : Attr.Raw
deriving DecidableEq

def Description.number? (description : Description) (kind : Datum.Kind) : Option Nat :=
  match description.parameters.children with
  | .ok attributes =>
      (attributes.find? (·.tag.number = kind.number)).map fun found => Bytes.ofBig found.payload
  | .error _ => none

structure Page where
  sequence : UInt32
  sender : UInt32
  name : SetName
  description : Option Description
  elements : List (List Datum)
deriving DecidableEq

namespace Page

def entries? (blocks : Attr.Raw) : Option (List (List Datum)) :=
  match blocks.children with
  | .ok entries => entries.mapM fun entry => (Engine.elementData entry).toOption
  | .error _ => none

/-- The description in a message, which carries all of it or nothing. -/
def description? (request : Request) : Option (Option Description) :=
  match request.typeName?, request.family?, request.revision?, request.data? with
  | some typeName, some family, some revision, some parameters =>
      some (some { typeName, family, revision, parameters })
  | none, none, none, none => some none
  | _, _, _, _ => none

def ofRequest? (request : Request) : Option Page := do
  let name ← request.setName?
  let description ← description? request
  let blocks ← request.batch?
  let elements ← entries? blocks
  some {
    sequence := request.header.sequence
    sender := request.header.sender
    name, description, elements }

def read? (message : Bytes) : Option Page :=
  match Segment.readAll message with
  | .ok [.request request] => ofRequest? request
  | _ => none

end Page

/-! ## What is written about a set -/

variable [ForeignStorage σ]

def Storage.description : Storage σ → List Tree
  | .hash current => current.description (ForeignStorage.hashMemory σ current)
  | .list current => current.description (ForeignStorage.listMemory σ current)
  | .foreign _ => []

namespace Entry

/-- How many others refer to a set, as a dump that refers to it tells it. -/
def others (entry : Entry σ) : UInt32 :=
  if entry.references = 0 then 0 else entry.references - 1

def parameters (entry : Entry σ) : List Tree :=
  entry.storage.description ++ [.networkWord Datum.Kind.references.number entry.others]

def description (entry : Entry σ) : List Tree :=
  [ .text Argument.typeNameNumber entry.type.name,
    (Argument.family entry.family.code).tree,
    (Argument.revision entry.type.revision).tree,
    .block Argument.dataNumber entry.parameters ]

def front (entry : Entry σ) (first : Bool) : List Tree :=
  [(Argument.protocol protocolVersion).tree, (Argument.setName entry.name).tree] ++
    if first then entry.description else []

def trees (entry : Entry σ) (first : Bool) (elements : List (Nat × List Datum)) : List Tree :=
  entry.front first ++ [.block Argument.batchNumber (Table.blocks elements)]

end Entry

structure Description.Describes (description : Description) (entry : Entry σ)
    (references : UInt32) : Prop where
  typeName : description.typeName.text = entry.type.name
  family : description.family = entry.family.code
  revision : description.revision = entry.type.revision
  references : description.number? .references = some references.toNat
  elements : ∀ hash, entry.storage = .hash hash →
    description.number? .elements = some hash.elements.length

/-- What a page of a dump says about a set and some of its elements. -/
structure Page.Tells (page : Page) (dump : Dump) (entry : Entry σ)
    (first : Bool) (elements : List (Nat × List Datum)) : Prop where
  sequence : page.sequence = dump.sequence
  sender : page.sender = dump.sender
  name : page.name = entry.name
  first : page.description.isSome = first
  described : ∀ description ∈ page.description, description.Describes entry entry.others
  parameters : ∀ description ∈ page.description,
    description.parameters = (Tree.block Argument.dataNumber entry.parameters).raw
  elements : page.elements = elements.map (·.2)

/-! ## How much room it takes -/

@[simp] theorem Attr.Tree.size_networkWord (number : BitVec 14) (value : UInt32) :
    (networkWord number value).size = 8 := by
  simp [networkWord, size, Bytes.aligned]

theorem Datum.size_dataBlock (datum : Datum) : (Argument.dataBlock [datum]).size ≤ 44 := by
  have small := datum.size_tree
  simp only [Argument.dataBlock, Tree.block, List.map_cons, List.map_nil, Tree.size, Tree.sizeAll]
  omega

/-- Every parameter is a number of at most 32 bits. -/
theorem Entry.sizeAll_parameters (entry : Entry σ) : Tree.sizeAll entry.parameters ≤ 48 := by
  unfold parameters
  cases entry.storage with
  | hash hash =>
      cases masked : hash.netmask <;>
        simp [Storage.description, AddressHash.description, masked, Tree.sizeAll, Tree.size,
          Datum.tree, Tree.networkWord, Tree.octet, Bytes.aligned]
  | list list =>
      simp [Storage.description, SetList.description, Tree.sizeAll, Tree.size, Datum.tree,
        Tree.networkWord, Bytes.aligned]
  | foreign inner => simp [Storage.description, Tree.sizeAll, Tree.size, Tree.networkWord,
      Bytes.aligned]

theorem Entry.find_references (entry : Entry σ) :
    (entry.parameters.map Tree.raw).find? (·.tag.number = Datum.Kind.references.number) =
      some (Tree.networkWord Datum.Kind.references.number entry.others).raw := by
  unfold parameters
  cases entry.storage with
  | hash hash => cases masked : hash.netmask <;>
      simp only [Storage.description, AddressHash.description, masked] <;> rfl
  | list list => rfl
  | foreign inner => rfl

theorem Entry.find_elements {hash : AddressHash} (stored : entry.storage = .hash hash) :
    (entry.parameters.map Tree.raw).find? (·.tag.number = Datum.Kind.elements.number) =
      some (Tree.networkWord Datum.Kind.elements.number (.ofNat hash.elements.length)).raw := by
  cases masked : hash.netmask <;>
    simp only [parameters, stored, Storage.description, AddressHash.description, masked] <;> rfl

omit [ForeignStorage σ] in
theorem SetType.Builtin.exists_name {type : SetType σ} (builtin : type.Builtin) :
    ∃ name : SetName, name.text = type.name ∧
      (Tree.text Argument.typeNameNumber name.text).size ≤ 16 := by
  rcases builtin with rfl | rfl
  · exact ⟨⟨"hash:ip", by decide, by decide, by decide⟩, rfl, by decide⟩
  · exact ⟨⟨"list:set", by decide, by decide, by decide⟩, rfl, by decide⟩

omit [ForeignStorage σ] in
theorem Entry.Builtin.type (builtin : entry.Builtin) : entry.type.Builtin := by
  unfold Entry.Builtin at builtin
  split at builtin
  · exact .inl builtin
  · exact .inr builtin
  · exact builtin.elim

theorem Entry.sizeAll_front (builtin : entry.Builtin) (first : Bool) :
    Tree.sizeAll (entry.front first) ≤ 128 := by
  obtain ⟨typeName, named, small⟩ := builtin.type.exists_name
  have short := entry.name.short
  have parameters := entry.sizeAll_parameters
  have name : (Argument.setName entry.name).tree.size ≤ 36 := by
    simp only [Argument.tree, Tree.text, Tree.size, List.length_append, List.length_singleton,
      Bytes.aligned]
    omega
  have described : Tree.sizeAll entry.description ≤ 84 := by
    rw [named] at small
    simp only [description, Tree.sizeAll, Argument.tree, Tree.octet, Tree.block, Tree.size,
      List.length_singleton, Bytes.aligned]
    omega
  rw [front, Tree.sizeAll_append]
  have protocol : (Argument.protocol protocolVersion).tree.size = 8 := rfl
  cases first <;> simp [Tree.sizeAll, protocol] <;> omega

/-! ## Reading it -/

namespace Page

theorem elementData_dataBlock {data : List Datum} (known : ∀ datum ∈ data,
    Datum.Kind.ofNumber? .element datum.kind.number = some datum.kind) :
    Engine.elementData (Argument.dataBlock data).raw = .ok data := by
  have tagged : (Argument.dataBlock data).raw.tag.number = Argument.dataNumber := rfl
  rw [Engine.elementData, if_pos tagged, Datum.readAll_dataBlock known]

theorem entries_blocks {elements : List (Nat × List Datum)}
    (readable : ∀ element ∈ elements, ∃ datum, element.2 = [datum] ∧
      Datum.Kind.ofNumber? .element datum.kind.number = some datum.kind) :
    entries? (Tree.block Argument.batchNumber (Table.blocks elements)).raw =
      some (elements.map (·.2)) := by
  have children : (Tree.block Argument.batchNumber (Table.blocks elements)).raw.children =
      .ok ((Table.blocks elements).map Tree.raw) := by
    refine Attr.split_encodeAll fun tree present => ?_
    obtain ⟨element, among, rfl⟩ := List.mem_map.mp present
    obtain ⟨datum, only, -⟩ := readable element among
    rw [only]
    exact Nat.lt_of_le_of_lt datum.size_dataBlock (by decide)
  simp only [entries?, children]
  clear children
  induction elements with
  | nil => rfl
  | cons element rest ih =>
      obtain ⟨datum, only, known⟩ := readable element List.mem_cons_self
      have first : Engine.elementData (Argument.dataBlock element.2).raw = .ok element.2 :=
        elementData_dataBlock (by simpa [only] using known)
      have later := ih fun other present => readable other (List.mem_cons_of_mem _ present)
      simp only [Table.blocks, List.map_cons, List.mapM_cons, first] at later ⊢
      rw [later]
      rfl

theorem number_networkWord (kind : Datum.Kind) (value : UInt32) :
    Bytes.ofBig (Tree.networkWord kind.number value).raw.payload = value.toNat := by
  have width : value.toNat < 4294967296 := value.toNat_lt
  simp only [Tree.networkWord, Tree.raw, Bytes.ofBig_big]
  exact Nat.mod_eq_of_lt width

theorem describes (entry : Entry σ)
    (few : ∀ hash, entry.storage = .hash hash → hash.elements.length < UInt32.size)
    {typeName : SetName} (named : typeName.text = entry.type.name) :
    Description.Describes {
      typeName
      family := entry.family.code
      revision := entry.type.revision
      parameters := (Tree.block Argument.dataNumber entry.parameters).raw } entry entry.others := by
  have children : (Tree.block Argument.dataNumber entry.parameters).raw.children =
      .ok (entry.parameters.map Tree.raw) := by
    refine Attr.split_encodeAll fun tree present => ?_
    have part := Tree.size_le_sizeAll present
    have whole := entry.sizeAll_parameters
    omega
  refine ⟨named, rfl, rfl, ?_, fun hash stored => ?_⟩
  · simp only [Description.number?, children, entry.find_references, Option.map_some,
      number_networkWord]
  · simp only [Description.number?, children, Entry.find_elements stored, Option.map_some,
      number_networkWord, UInt32.toNat_ofNat_of_lt' (few hash stored)]

section Requests

variable {request : Request} {version : UInt8} {name : SetName} {described : Description}
  {blocks : Attr.Raw} {elements : List (List Datum)}

theorem ofRequest_described
    (arguments : request.arguments = [.protocol version, .setName name,
      .typeName described.typeName, .family described.family, .revision described.revision,
      .data described.parameters, .batch blocks])
    (entries : entries? blocks = some elements) :
    ofRequest? request = some {
      sequence := request.header.sequence
      sender := request.header.sender
      name, description := some described, elements } := by
  simp [ofRequest?, description?, Request.setName?, Request.typeName?, Request.family?,
    Request.revision?, Request.data?, Request.batch?, arguments, entries]

theorem ofRequest_bare
    (arguments : request.arguments = [.protocol version, .setName name, .batch blocks])
    (entries : entries? blocks = some elements) :
    ofRequest? request = some {
      sequence := request.header.sequence
      sender := request.header.sender
      name, description := none, elements } := by
  simp [ofRequest?, description?, Request.setName?, Request.typeName?, Request.family?,
    Request.revision?, Request.data?, Request.batch?, arguments, entries]

end Requests

/-- A message about a set is read as a page with its name, its elements, and its description
if it is the first. -/
theorem read_finish (limit : Nat) (sequence sender : UInt32) (builtin : entry.Builtin)
    (few : ∀ hash, entry.storage = .hash hash → hash.elements.length < UInt32.size)
    (first : Bool) {elements : List (Nat × List Datum)}
    (readable : ∀ element ∈ elements, ∃ datum, element.2 = [datum] ∧
      Datum.Kind.ofNumber? .element datum.kind.number = some datum.kind)
    (small : Request.headLength + Tree.sizeAll (entry.trees first elements) < 65536) :
    ∃ description : Option Description,
      read? ((Draft.blank limit .list Message.Header.multipart sequence sender).adding
        (entry.trees first elements)).finish =
          some { sequence, sender, name := entry.name, description,
                 elements := elements.map (·.2) } ∧
      description.isSome = first ∧ ∀ told ∈ description, told.Describes entry entry.others ∧
        told.parameters = (Tree.block Argument.dataNumber entry.parameters).raw := by
  have entries := entries_blocks readable
  have batch : List.Forall₂ Argument.Means
      [.block Argument.batchNumber (Table.blocks elements)]
      [.batch (Tree.block Argument.batchNumber (Table.blocks elements)).raw] :=
    .cons (Argument.means_batch _) .nil
  have start : List.Forall₂ Argument.Means
      [(Argument.protocol protocolVersion).tree, (Argument.setName entry.name).tree]
      [.protocol protocolVersion, .setName entry.name] :=
    .cons (Argument.means_tree trivial) (.cons (Argument.means_tree trivial) .nil)
  cases first with
  | false =>
      have meaning : List.Forall₂ Argument.Means (entry.trees false elements) _ :=
        List.rel_append start batch
      refine ⟨none, ?_, rfl, by simp⟩
      simp only [read?, Draft.readAll_finish limit _ _ _ _ meaning small]
      exact ofRequest_bare rfl entries
  | true =>
      obtain ⟨typeName, named, -⟩ := builtin.type.exists_name
      have described : List.Forall₂ Argument.Means entry.description
          [.typeName typeName, .family entry.family.code, .revision entry.type.revision,
            .data (Tree.block Argument.dataNumber entry.parameters).raw] := by
        have typed : Argument.Means (Argument.typeName typeName).tree (.typeName typeName) :=
          Argument.means_tree trivial
        rw [Entry.description, ← named]
        exact .cons typed
          (.cons (Argument.means_tree trivial) (.cons (Argument.means_tree trivial)
            (.cons (Argument.means_dataBlock _) .nil)))
      have meaning : List.Forall₂ Argument.Means (entry.trees true elements) _ :=
        List.rel_append (List.rel_append start described) batch
      refine ⟨some {
        typeName
        family := entry.family.code
        revision := entry.type.revision
        parameters := (Tree.block Argument.dataNumber entry.parameters).raw }, ?_, rfl, ?_⟩
      · simp only [read?, Draft.readAll_finish limit _ _ _ _ meaning small]
        exact ofRequest_described rfl entries
      · rintro _ ⟨⟩
        exact ⟨describes entry few named, rfl⟩

end Page

/-! ## Writing it -/

theorem Storage.describe_builtin (builtin : ∀ inner, storage ≠ .foreign inner)
    (draft : Draft) : storage.describe draft = draft.putAll storage.description := by
  cases storage with
  | hash current => rfl
  | list current => rfl
  | foreign inner => exact absurd rfl (builtin inner)

namespace Dump

theorem describe_of_fits {draft : Draft}
    (builtin : ∀ inner, entry.storage ≠ .foreign inner)
    (fits : Tree.sizeAll entry.description ≤ draft.room) :
    describe entry draft = .ok (draft.adding entry.description) := by
  simp only [Entry.description, Tree.block, Entry.parameters, Tree.sizeAll, Tree.size,
    Tree.sizeAll_append, Tree.size_networkWord] at fits
  rw [describe, Draft.put_bind (by omega), Draft.put_bind (by simp [Tree.sizeAll]; omega),
    Draft.put_bind (by simp [Tree.sizeAll]; omega),
    Draft.openNest_bind (by simp [Tree.sizeAll, Attr.headerLength]; omega),
    Storage.describe_builtin builtin,
    Draft.putAll_of_fits (by simp [Tree.sizeAll, Attr.headerLength]; omega)]
  dsimp only
  rw [Draft.put_bind (by simp [Tree.sizeAll, Attr.headerLength]; omega)]
  simp [Entry.description, Entry.parameters, Entry.others, Tree.block]

theorem describe_first_bind {α : Type} {draft : Draft}
    (builtin : ∀ inner, entry.storage ≠ .foreign inner) (first : Bool)
    (fits : Tree.sizeAll (if first then entry.description else []) ≤ draft.room)
    (next : Draft → Except Fault α) :
    (if first then describe entry draft >>= next else .ok draft >>= next) =
      next (draft.adding (if first then entry.description else [])) := by
  cases first with
  | false =>
      rw [if_neg Bool.false_ne_true, if_neg Bool.false_ne_true, Draft.adding_nil]
      rfl
  | true =>
      rw [if_pos rfl, if_pos rfl, describe_of_fits builtin fits]
      rfl

/-- A message about a set carries what it should, and elements up to some place. Only how many
these are depends on the limit. -/
theorem message_listable {limit : Nat} (dump : Dump) (builtin : entry.Builtin)
    (listable : table.Listable entry.storage) (large : 512 ≤ limit) (first : Bool) (start : Nat) :
    ∃ room next progress,
      Request.headLength + Tree.sizeAll (entry.front first) + Attr.headerLength + room = limit ∧
      Table.Reaches (table.elementsFrom entry.storage start) room start next progress ∧
      dump.message table entry limit first start =
        .ok (((Draft.blank limit .list Message.Header.multipart dump.sequence dump.sender).adding
          (entry.trees first
            ((table.elementsFrom entry.storage start).filter (·.1 < next)))).finish,
            next, progress) := by
  have small := Entry.sizeAll_front builtin first
  obtain ⟨next, progress, reaches, written⟩ := Table.list_listable listable start
    (((Draft.blank limit .list Message.Header.multipart dump.sequence dump.sender).adding
      (entry.front first)).opening { number := Argument.batchNumber })
  refine ⟨_, next, progress, ?_, reaches, ?_⟩
  · simp only [Draft.room_opening, Draft.room_adding, Draft.room_blank, Request.headLength,
      Attr.headerLength]
    omega
  -- The front has at most 128 bytes, so it fits into the smallest message, part by part.
  · have split := Tree.sizeAll_append [(Argument.protocol protocolVersion).tree,
      (Argument.setName entry.name).tree] (if first then entry.description else [])
    rw [← Entry.front] at split
    simp only [Tree.sizeAll] at split
    rw [message,
      Draft.start_bind (by simp only [Request.headLength]; omega),
      Draft.put_bind (by simp only [Draft.room_blank, Request.headLength]; omega),
      Draft.put_bind (by
        simp only [Draft.room_adding, Draft.room_blank, Request.headLength, Tree.sizeAll]; omega),
      Draft.adding_adding]
    extract_lets rest
    rw [describe_first_bind listable.builtin first (by
      simp only [Draft.room_adding, Draft.room_blank, Request.headLength, Tree.sizeAll,
        List.singleton_append]
      omega) rest, Draft.adding_adding, List.singleton_append, ← Entry.front]
    simp only [rest]
    rw [Draft.openNest_bind (by
      simp only [Draft.room_adding, Draft.room_blank, Request.headLength, Attr.headerLength]
      omega), written]
    simp only [Draft.closeNest_opening, Draft.adding_adding, Entry.trees, Tree.block]

/-- A message about a set is a page of at most the greatest length. It lists all elements from
a place up to another, which is further on unless there is nothing left. -/
theorem message_page {limit : Nat} (dump : Dump) (builtin : entry.Builtin)
    (listable : table.Listable entry.storage) (large : 512 ≤ limit) (small : limit ≤ 65535)
    (first : Bool) (start : Nat) :
    ∃ bytes next progress page,
      dump.message table entry limit first start = .ok (bytes, next, progress) ∧
      bytes.length ≤ limit ∧ Page.read? bytes = some page ∧
      page.Tells dump entry first
        ((table.elementsFrom entry.storage start).filter (·.1 < next)) ∧
      (progress = .done → ∀ element ∈ table.elementsFrom entry.storage start,
        element.1 < next) ∧
      (progress = .more → start < next ∧
        ∃ element ∈ table.elementsFrom entry.storage start, next ≤ element.1) := by
  obtain ⟨room, next, progress, whole, reaches, sent⟩ :=
    message_listable dump builtin listable large first start
  have front := Entry.sizeAll_front builtin first
  have enough := reaches.fits
  simp only [Request.headLength, Attr.headerLength] at whole
  have total : Tree.sizeAll (entry.trees first
      ((table.elementsFrom entry.storage start).filter (·.1 < next))) =
        Tree.sizeAll (entry.front first) + 4 + Tree.sizeAll (Table.blocks
          ((table.elementsFrom entry.storage start).filter (·.1 < next))) := by
    simp only [Entry.trees, Tree.sizeAll_append, Tree.sizeAll, Tree.block, Tree.size]
    omega
  have readable : ∀ element ∈ (table.elementsFrom entry.storage start).filter (·.1 < next),
      ∃ datum, element.2 = [datum] ∧
        Datum.Kind.ofNumber? .element datum.kind.number = some datum.kind := fun element present =>
    Table.exists_datum (List.mem_of_mem_filter (List.mem_of_mem_filter present))
  have few : ∀ hash, entry.storage = .hash hash → hash.elements.length < UInt32.size := by
    intro hash stored
    have counted := listable.few
    rwa [stored, Table.elements, List.length_map] at counted
  obtain ⟨description, read, described, tells⟩ := Page.read_finish limit dump.sequence dump.sender
    builtin few first readable (by simp only [Request.headLength]; omega)
  refine ⟨_, next, progress, _, sent, ?_, read, ⟨rfl, rfl, rfl, described,
    fun told present => (tells told present).1, fun told present => (tells told present).2, rfl⟩,
    reaches.done, fun cut => ?_⟩
  · rw [Draft.length_finish_adding]
    simp only [Request.headLength]
    omega
  -- If nothing were written, the first element would not have fitted behind the front, but a
  -- message has room for more than that.
  · obtain ⟨element, present, beyond, tight⟩ := reaches.more cut
    refine ⟨Nat.lt_of_le_of_ne reaches.forward fun same => ?_, element, present, beyond⟩
    subst same
    have nothing : (table.elementsFrom entry.storage start).filter (·.1 < start) = [] := by
      refine List.filter_eq_nil_iff.mpr fun other among => ?_
      have behind := (List.mem_filter.mp among).2
      simp only [decide_eq_true_eq] at behind ⊢
      omega
    obtain ⟨datum, only, -⟩ := Table.exists_datum (List.mem_of_mem_filter present)
    have size := datum.size_dataBlock
    rw [nothing, only] at tight
    simp only [Table.blocks, List.map_nil, Tree.sizeAll] at tight
    omega

end Dump

end NamedSets
