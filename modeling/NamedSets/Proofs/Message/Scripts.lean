import NamedSets.Proofs.Attr.Forest
import NamedSets.Proofs.Message.Buffers

/-!
# Scripts of replies

Whatever the steps of a script come to, each is taken as a whole or not at all, and the reply
holds the attributes that were put and not dropped again, nested as they were opened and closed.
The invariant says of a draft which attributes it holds at each level, given what was taken so
far.
-/

namespace NamedSets.Message

open Attr (Tag Tree)

variable {draft first outer : Draft} {step : Step} {steps : List Step} {tree : Tree}
  {trees items : List Tree} {number : BitVec 14} {tag : Tag} {limit : Nat}

theorem Step.size_of_tree (puts : step.tree? = some tree) : step.size = tree.size := by
  cases step <;> first | contradiction | (cases puts; rfl)

namespace Draft

/-! ## The bytes of a draft -/

theorem length_finish (draft : Draft) :
    draft.finish.length = Request.headLength + draft.attributes.length := by
  simp [finish, Header.width, Body.encode, Request.headLength]
  omega

theorem drop_finish (draft : Draft) : draft.finish.drop Request.headLength = draft.attributes := by
  refine List.drop_left' ?_
  simp [Header.width, Body.encode, Request.headLength]

/-- Once no nest is open, the buffer holds what the finished message does. -/
theorem buffer_of_flat (flat : draft.nests.isEmpty = true) :
    draft.buffer = {
      limit := draft.limit
      bytes := draft.finish.drop Request.headLength
      marks := [] } := by
  rw [buffer, List.isEmpty_iff.mp flat, drop_finish]
  rfl

/-! ## A single step -/

inductive Taken (draft : Draft) : Step → Draft × Except Fault Unit → Prop
  | refused {step : Step} (full : draft.room < step.size) :
      Taken draft step (draft, .error .messageFull)
  | put {step : Step} {tree : Tree} (puts : step.tree? = some tree)
      (fits : tree.size ≤ draft.room) : Taken draft step (draft.adding [tree], .ok ())
  | opened (number : BitVec 14) (fits : Attr.headerLength ≤ draft.room) :
      Taken draft (.openNest number) (draft.opening { number }, .ok ())
  | closed : Taken draft .closeNest (draft.closeNest, .ok ())
  | dropped : Taken draft .dropNest (draft.dropNest, .ok ())

theorem taken_put (puts : step.tree? = some tree) :
    Taken draft step (draft.attempt (draft.put tree)) := by
  by_cases fits : tree.size ≤ draft.room
  · rw [put_of_fits fits]
    exact .put puts fits
  · rw [put, if_neg fits]
    exact .refused (Step.size_of_tree puts ▸ Nat.not_le.mp fits)

/-- An attribute in a nest of its own is put as a whole or not at all. -/
theorem putNested_eq (draft : Draft) (number : BitVec 14) (item : Tree) :
    draft.putNested number item = draft.attempt (draft.put (.block number [item])) := by
  have whole : (Tree.block number [item]).size = Attr.headerLength + item.size := by
    simp only [Tree.block, Tree.size, Tree.sizeAll, Attr.headerLength, Nat.add_zero]
  have inside : (draft.opening { number }).room = draft.room - Attr.headerLength :=
    room_opening draft { number }
  by_cases header : Attr.headerLength ≤ draft.room
  · by_cases fits : item.size ≤ (draft.opening { number }).room
    · have room : (Tree.block number [item]).size ≤ draft.room := by omega
      rw [put_of_fits room]
      simp only [putNested, openNest_of_fits header, put_of_fits fits, closeNest_opening, attempt,
        Tree.block]
    · have full : ¬ (Tree.block number [item]).size ≤ draft.room := by omega
      simp only [putNested, openNest_of_fits header, put, if_neg fits, if_neg full, attempt]
      rfl
  · have full : ¬ (Tree.block number [item]).size ≤ draft.room := by omega
    simp only [putNested, openNest, if_neg header, put, if_neg full, attempt]

theorem taken (draft : Draft) (step : Step) : Taken draft step (draft.perform step) := by
  cases step with
  | octet | word | networkHalf | networkWord | text | bytes => exact taken_put rfl
  | address number value =>
      rw [perform, putAddress, putNested_eq]
      exact taken_put rfl
  | openNest number =>
      rw [perform]
      by_cases fits : Attr.headerLength ≤ draft.room
      · rw [openNest_of_fits fits]
        exact .opened number fits
      · rw [openNest, if_neg fits]
        exact .refused (Nat.not_le.mp fits)
  | closeNest => exact .closed
  | dropNest => exact .dropped

/-! ## What a script leaves -/

/-- The attributes that a script leaves, given what its steps came to: those that were put, in
order, with those of a closed nest inside it, and without those of a dropped one. -/
inductive Leaves : List (Step × Except Fault Unit) → List Tree → Prop
  | nil : Leaves [] []
  | failed {log : List (Step × Except Fault Unit)} {trees : List Tree} (step : Step)
      (fault : Fault) (rest : Leaves log trees) : Leaves ((step, .error fault) :: log) trees
  | put {log : List (Step × Except Fault Unit)} {trees : List Tree} {step : Step} {tree : Tree}
      (puts : step.tree? = some tree) (rest : Leaves log trees) :
      Leaves ((step, .ok ()) :: log) (tree :: trees)
  | closed {inner log : List (Step × Except Fault Unit)} {items trees : List Tree}
      (number : BitVec 14) (inside : Leaves inner items) (rest : Leaves log trees) :
      Leaves ((.openNest number, .ok ()) :: inner ++ (.closeNest, .ok ()) :: log)
        (.block number items :: trees)
  | dropped {inner log : List (Step × Except Fault Unit)} {items trees : List Tree}
      (number : BitVec 14) (inside : Leaves inner items) (rest : Leaves log trees) :
      Leaves ((.openNest number, .ok ()) :: inner ++ (.dropNest, .ok ()) :: log) trees

variable {log inner : List (Step × Except Fault Unit)}

theorem Leaves.append {later : List (Step × Except Fault Unit)} {more : List Tree}
    (leaves : Leaves log trees) (others : Leaves later more) :
    Leaves (log ++ later) (trees ++ more) := by
  induction leaves with
  | nil => exact others
  | failed step fault _ ih => exact .failed step fault ih
  | put puts _ ih => exact .put puts ih
  | closed number inside _ _ ih =>
      rw [List.append_assoc]
      exact .closed number inside ih
  | dropped number inside _ _ ih =>
      rw [List.append_assoc]
      exact .dropped number inside ih

/-- A step that is repeated as it came out, without regard to the room. -/
def replay (draft : Draft) : Step × Except Fault Unit → Draft
  | (_, .error _) => draft
  | (.openNest number, .ok ()) => draft.opening { number }
  | (.closeNest, .ok ()) => draft.closeNest
  | (.dropNest, .ok ()) => draft.dropNest
  | (step, .ok ()) => draft.adding step.tree?.toList

theorem replay_put (puts : step.tree? = some tree) :
    draft.replay (step, .ok ()) = draft.adding [tree] := by
  cases step <;> first | contradiction | (cases puts; rfl)

theorem Taken.replay_eq {result : Draft × Except Fault Unit} (taken : Taken draft step result) :
    result.1 = draft.replay (step, result.2) := by
  cases taken with
  | put puts _ => exact (replay_put puts).symm
  | _ => rfl

theorem Leaves.replay_eq (leaves : Leaves log trees) (draft : Draft) :
    log.foldl replay draft = draft.adding trees := by
  induction leaves generalizing draft with
  | nil => simp
  | failed step fault _ ih => exact ih draft
  | put puts _ ih =>
      rw [List.foldl_cons, replay_put puts, ih, adding_adding, List.singleton_append]
  | closed number _ _ inside ih =>
      rw [List.cons_append, List.foldl_cons, List.foldl_append, inside, List.foldl_cons]
      change List.foldl replay ((draft.opening { number }).adding _).closeNest _ = _
      rw [closeNest_opening, ih, adding_adding]
      rfl
  | dropped number _ _ inside ih =>
      rw [List.cons_append, List.foldl_cons, List.foldl_append, inside, List.foldl_cons]
      exact ih draft

theorem Leaves.unique {others : List Tree} (leaves : Leaves log trees)
    (other : Leaves log others) : trees = others := by
  let draft := blank 0 .list 0 0 0
  have same : (draft.adding trees).items = (draft.adding others).items :=
    congrArg Draft.items ((leaves.replay_eq draft).symm.trans (other.replay_eq draft))
  simpa [adding, draft, blank] using same

theorem marked_tree (puts : step.tree? = some tree) : tree.Marked := by
  cases step <;> first | contradiction | (cases puts; simp [Tree.Marked, Tree.MarkedAll, Tree.octet,
    Tree.word, Tree.networkHalf, Tree.networkWord, Tree.text, Tree.address, Tree.block])

theorem Leaves.marked (leaves : Leaves log trees) : Tree.MarkedAll trees := by
  induction leaves with
  | nil => trivial
  | failed _ _ _ ih => exact ih
  | put puts _ ih => exact ⟨marked_tree puts, ih⟩
  | closed _ _ _ inside ih => exact ⟨⟨rfl, inside⟩, ih⟩
  | dropped _ _ _ _ ih => exact ih

/-! ## Drafts in the course of a script -/

/-- A draft with nests still open holds at each level what the steps since the nest was opened
leave. -/
inductive Holds (first : Draft) : List (Step × Except Fault Unit) → Draft → Prop
  | level {log : List (Step × Except Fault Unit)} {trees : List Tree} (leaves : Leaves log trees) :
      Holds first log (first.adding trees)
  | inside {log inner : List (Step × Except Fault Unit)} {draft : Draft} {items : List Tree}
      (around : Holds first log draft) (number : BitVec 14) (leaves : Leaves inner items) :
      Holds first (log ++ (.openNest number, .ok ()) :: inner)
        ((draft.opening { number }).adding items)

theorem Holds.adding (holds : Holds first log draft) (leaves : Leaves inner trees) :
    Holds first (log ++ inner) (draft.adding trees) := by
  cases holds with
  | level before =>
      rw [adding_adding]
      exact .level (before.append leaves)
  | inside around number before =>
      rw [adding_adding, List.append_assoc, List.cons_append]
      exact .inside around number (before.append leaves)

/-- A step leaves a draft that holds what the steps so far leave. -/
theorem Holds.perform (holds : Holds first log draft) (flat : first.nests = [])
    (matched : step.ends = true → draft.nests.isEmpty = false) :
    Holds first (log ++ [(step, (draft.perform step).2)]) (draft.perform step).1 := by
  have taken := taken draft step
  generalize draft.perform step = result at taken
  cases taken with
  | refused full =>
      have kept := holds.adding (Leaves.failed step .messageFull .nil)
      rwa [adding_nil] at kept
  | put puts fits => exact holds.adding (.put puts .nil)
  | opened number fits =>
      have opened := holds.inside number .nil
      rwa [adding_nil] at opened
  | closed =>
      cases holds with
      | level leaves => exact absurd (matched rfl) (by simp [flat])
      | inside around number leaves =>
          rw [closeNest_opening, List.append_assoc]
          exact around.adding (.closed number leaves .nil)
  | dropped =>
      cases holds with
      | level leaves => exact absurd (matched rfl) (by simp [flat])
      | inside around number leaves =>
          have kept := around.adding (Leaves.dropped number leaves .nil)
          rwa [adding_nil, ← List.append_assoc] at kept

/-- Without a nest open, all steps so far are accounted for. -/
theorem Holds.leaves (holds : Holds first log draft) (flat : draft.nests.isEmpty = true) :
    ∃ trees, Leaves log trees ∧ draft = first.adding trees := by
  cases holds with
  | level leaves => exact ⟨_, leaves, rfl⟩
  | inside => simp [opening] at flat

/-! ## Scripts of replies -/

variable {command : Command} {flags : UInt16} {sequence sender : UInt32}

structure Sound (first : Draft) (log : List (Step × Except Fault Unit)) (draft : Draft) :
    Prop where
  holds : Holds first log draft
  within : draft.length ≤ first.limit

theorem Holds.limit_eq (holds : Holds first log draft) : draft.limit = first.limit := by
  induction holds with
  | level leaves => rfl
  | inside around number leaves ih => exact ih

theorem Holds.measured (holds : Holds (blank limit command flags sequence sender) log draft) :
    draft.Measured := by
  have first : (blank limit command flags sequence sender).Measured := rfl
  induction holds with
  | level leaves => exact first.adding _
  | inside around number leaves ih => exact (ih.opening _).adding _

theorem Holds.length_finish_eq
    (holds : Holds (blank limit command flags sequence sender) log draft) :
    draft.finish.length = draft.length ∧ draft.length % 4 = 0 := by
  refine ⟨(length_finish draft).trans holds.measured.symm, ?_⟩
  induction holds with
  | @level _ trees leaves =>
      have whole := Tree.sizeAll_mod trees
      simp only [length_adding, blank, Request.headLength]
      omega
  | @inside _ _ draft items around number leaves ih =>
      have whole := Tree.sizeAll_mod items
      simp only [length_adding, length_opening, Attr.headerLength]
      omega

/-- A step does to the bytes of the reply what it does to the draft. -/
theorem Holds.perform_buffer
    (holds : Holds (blank limit command flags sequence sender) log draft)
    (matched : step.ends = true → draft.nests.isEmpty = false) :
    draft.buffer.perform step = (draft.perform step).map buffer id := by
  cases ends : step.ends with
  | false => exact Draft.perform_buffer holds.measured ends
  | true =>
      cases holds with
      | level leaves => exact absurd (matched ends) (by simp [blank])
      | inside around number leaves =>
          cases step with
          | closeNest => exact Prod.ext (closeNest_buffer around.measured _ _) rfl
          | dropNest => exact Prod.ext (dropNest_buffer around.measured _ _) rfl
          | _ => cases ends

/-- A step either has room and succeeds, or has none and fails for it, and then it changes
nothing. The reply never exceeds the limit and stays aligned. -/
structure AllOrNothing (limit : Nat) (moment : Moment) : Prop where
  within : moment.after.finish.length ≤ limit
  aligned : moment.after.finish.length % 4 = 0
  whole : (moment.outcome = .ok () ∧ moment.before.finish.length + moment.step.size ≤ limit) ∨
    (moment.outcome = .error .messageFull ∧ moment.after = moment.before ∧
      limit < moment.before.finish.length + moment.step.size)

/-- A step of a sound draft succeeds if and only if it has room, and fails as a whole. -/
theorem Sound.perform (sound : Sound (blank limit command flags sequence sender) log draft)
    (matched : step.ends = true → draft.nests.isEmpty = false) :
    Sound (blank limit command flags sequence sender) (log ++ [(step, (draft.perform step).2)])
        (draft.perform step).1 ∧
      AllOrNothing limit
        { before := draft, step, after := (draft.perform step).1,
          outcome := (draft.perform step).2 } := by
  have holds := sound.holds.perform rfl matched
  have room : draft.room = limit - draft.length := by rw [Draft.room, sound.holds.limit_eq]; rfl
  have measured := sound.holds.length_finish_eq
  have after := holds.length_finish_eq
  have within : draft.length ≤ limit := sound.within
  have taken := taken draft step
  generalize draft.perform step = result at taken holds after ⊢
  suffices outcome : result.1.length ≤ limit ∧
      ((result.2 = .ok () ∧ draft.length + step.size ≤ limit) ∨
        (result.2 = .error .messageFull ∧ result.1 = draft ∧ limit < draft.length + step.size)) by
    obtain ⟨inside, whole⟩ := outcome
    refine ⟨⟨holds, inside⟩, ?_, ?_, ?_⟩
    · exact after.1 ▸ inside
    · exact after.1 ▸ after.2
    · rw [measured.1]
      exact whole
  cases taken with
  | refused full => exact ⟨within, .inr ⟨rfl, rfl, by omega⟩⟩
  | put puts fits =>
      have size := Step.size_of_tree puts
      have positive : 4 ≤ step.size := by rw [size, Tree.size_eq]; omega
      refine ⟨?_, .inl ⟨rfl, by omega⟩⟩
      simp only [length_adding, Tree.sizeAll]
      omega
  | opened number fits =>
      have positive : 0 < Attr.headerLength := by decide
      have inside : draft.length + Attr.headerLength ≤ limit := by omega
      exact ⟨inside, .inl ⟨rfl, inside⟩⟩
  | closed =>
      have kept : draft.closeNest.length = draft.length := by
        unfold closeNest
        split <;> rfl
      exact ⟨by rw [kept]; exact within, .inl ⟨rfl, within⟩⟩
  | dropped =>
      refine ⟨?_, .inl ⟨rfl, within⟩⟩
      cases sound.holds with
      | level leaves => exact absurd (matched rfl) (by simp [blank])
      | inside around number leaves =>
          simp only [length_adding, length_opening] at within
          simp only [dropNest_opening]
          omega

def Moment.entry (moment : Moment) : Step × Except Fault Unit := (moment.step, moment.outcome)

theorem Sound.performAll (sound : Sound (blank limit command flags sequence sender) log draft)
    (matched : draft.Matched steps) :
    Sound (blank limit command flags sequence sender)
        (log ++ (draft.moments steps).map Moment.entry) (draft.performAll steps) ∧
      (draft.performAll steps).nests.isEmpty = true ∧
      ∀ moment ∈ draft.moments steps, AllOrNothing limit moment := by
  induction steps generalizing draft log with
  | nil => exact ⟨by simpa [moments, Draft.performAll] using sound, matched, by simp [moments]⟩
  | cons step rest ih =>
      obtain ⟨next, here⟩ := sound.perform matched.1
      obtain ⟨final, flat, later⟩ := ih next matched.2
      refine ⟨?_, flat, List.forall_mem_cons.mpr ⟨here, later⟩⟩
      simpa [moments, Moment.entry, Draft.performAll] using final

theorem Sound.performAll_buffer
    (sound : Sound (blank limit command flags sequence sender) log draft)
    (matched : draft.Matched steps) :
    draft.buffer.performAll steps =
      ((draft.performAll steps).buffer, (draft.moments steps).map Moment.outcome) := by
  induction steps generalizing draft log with
  | nil => rfl
  | cons step rest ih =>
      have here := sound.holds.perform_buffer matched.1
      have later := ih (sound.perform matched.1).1 matched.2
      simp only [Buffer.performAll, here, Prod.map_fst, Prod.map_snd, id_eq, later]
      rfl

/-- A reply of limited length is written all or nothing and as its script says. Every step is
taken as a whole or fails without a trace, and the attributes of the finished reply, taken apart
into what they nest, are those that the steps leave, which are determined by the steps. The bytes
come about by writing at their end, over the lengths of nests that are closed, and back to the
start of those that are dropped. -/
theorem script_faithful (command : Command) (flags : UInt16) (sequence sender : UInt32)
    (enough : Request.headLength ≤ limit) (short : limit < 65536) :
    ∃ draft, start limit command flags sequence sender = .ok draft ∧
      ∀ steps, draft.Matched steps →
        (∀ moment ∈ draft.moments steps, AllOrNothing limit moment) ∧
        Buffer.performAll { limit, bytes := [], marks := [] } steps =
          ({ limit, bytes := (draft.performAll steps).finish.drop Request.headLength, marks := [] },
            (draft.moments steps).map Moment.outcome) ∧
        ∃ trees,
          Attr.forest ((draft.performAll steps).finish.drop Request.headLength) = .ok trees ∧
          ∀ kept, Leaves ((draft.moments steps).map Moment.entry) kept ↔ kept = trees := by
  refine ⟨blank limit command flags sequence sender, ?_, fun steps matched => ?_⟩
  · rw [start, if_neg (Nat.not_lt.mpr enough)]
    rfl
  have untouched : Holds (blank limit command flags sequence sender) []
      ((blank limit command flags sequence sender).adding []) := .level .nil
  rw [adding_nil] at untouched
  have empty : Sound (blank limit command flags sequence sender) []
      (blank limit command flags sequence sender) := ⟨untouched, enough⟩
  obtain ⟨⟨holds, within⟩, flat, moments⟩ := empty.performAll matched
  refine ⟨moments, ?_, ?_⟩
  · have final := empty.performAll_buffer matched
    rw [buffer_of_flat flat, holds.limit_eq] at final
    exact final
  rw [List.nil_append] at holds
  obtain ⟨trees, leaves, written⟩ := holds.leaves flat
  refine ⟨trees, ?_, fun kept => ⟨fun other => other.unique leaves, fun same => same ▸ leaves⟩⟩
  rw [written] at within ⊢
  have small : Tree.sizeAll trees < 65536 := by
    have inside : Request.headLength + Tree.sizeAll trees ≤ limit := within
    omega
  rw [drop_finish, attributes_adding]
  exact Tree.forest_encodeAll small leaves.marked

/-- Two steps of this script find no room in a reply of 60 bytes: the second address, whose nest
does, and the long payload. -/
def sampleScript : List Step :=
  [.openNest 7, .address 1 (.v4 0x0a000001), .openNest 5, .octet 3 24, .address 2 (.v6 1), .dropNest,
    .bytes 4 [0x61, 0x62, 0x63], .bytes 9 (Bytes.zeros 20), .closeNest, .networkHalf 6 80]

def sampleTrees : List Tree :=
  [.block 7 [.address 1 (.v4 0x0a000001), .value { number := 4 } [0x61, 0x62, 0x63]],
    .networkHalf 6 80]

theorem script_faithful_sample :
    (Request.headLength ≤ 60 ∧ 60 < 65536) ∧
    ∃ draft, start 60 .save 0 1 2 = .ok draft ∧ draft.Matched sampleScript ∧
      (∀ moment ∈ draft.moments sampleScript, AllOrNothing 60 moment) ∧
      Attr.forest ((draft.performAll sampleScript).finish.drop Request.headLength) =
        .ok sampleTrees := by
  have enough : Request.headLength ≤ 60 := by decide
  have short : 60 < 65536 := by decide
  obtain ⟨draft, started, faithful⟩ := script_faithful .save 0 1 2 enough short
  have dropped : Leaves [(.octet 3 24, .ok ()), (.address 2 (.v6 1), .error .messageFull)]
      [.octet 3 24] := .put rfl (.failed _ _ .nil)
  have inside : Leaves
      [(.address 1 (.v4 0x0a000001), .ok ()), (.openNest 5, .ok ()), (.octet 3 24, .ok ()),
        (.address 2 (.v6 1), .error .messageFull), (.dropNest, .ok ()),
        (.bytes 4 [0x61, 0x62, 0x63], .ok ()), (.bytes 9 (Bytes.zeros 20), .error .messageFull)]
      [.address 1 (.v4 0x0a000001), .value { number := 4 } [0x61, 0x62, 0x63]] :=
    .put rfl (.dropped 5 dropped (.put rfl (.failed _ _ .nil)))
  obtain rfl : blank 60 .save 0 1 2 = draft := Except.ok.inj started
  have matched : (blank 60 .save 0 1 2).Matched sampleScript := by decide
  obtain ⟨moments, -, trees, read, exact⟩ := faithful sampleScript matched
  have left : sampleTrees = trees := (exact _).mp (.closed 7 inside (.put rfl .nil))
  exact ⟨⟨enough, short⟩, _, started, matched, moments, left ▸ read⟩

end Draft

end NamedSets.Message
