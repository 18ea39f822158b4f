import NamedSets.Proofs.Message.Lines

/-!
# Where a line number is written

The line number that is written over is the first one that is read from a request. Its four bytes
are all that changes: the attributes in front of it and behind it are read from the same bytes as
before, and the request tells the same line as its bytes do.
-/

namespace NamedSets.Message

/-- The bytes in front of a line number with its header, and behind it. -/
structure LineSpot where
  front : Bytes
  tag : Attr.Tag
  back : Bytes

namespace LineSpot

def holding (spot : LineSpot) (line : UInt32) : Bytes :=
  spot.front ++ (Attr.Tree.header spot.tag 4 ++ (Bytes.little 4 line.toNat ++ spot.back))

theorem holding_ne_nil (spot : LineSpot) (line : UInt32) : spot.holding line ≠ [] := by
  simp [holding, Bytes.little]

/-- The spot of an attribute with four bytes holds what these bytes stand for. -/
theorem holding_taken {rest : Bytes} (tag : Attr.Tag) (inside : 4 ≤ rest.length) :
    holding ⟨[], tag, rest.drop 4⟩ (.ofNat (Bytes.ofLittle (rest.take 4))) =
      Attr.Tree.header tag 4 ++ rest := by
  have whole : (rest.take 4).length = 4 := List.length_take_of_le inside
  have small : Bytes.ofLittle (rest.take 4) < UInt32.size := by
    have bound := Bytes.ofLittle_lt (rest.take 4)
    rwa [whole] at bound
  have written := Bytes.little_ofLittle (rest.take 4)
  rw [whole] at written
  rw [holding, UInt32.toNat_ofNat_of_lt' small, written, List.take_append_drop]
  rfl

def behind (spot : LineSpot) (bytes : Bytes) : LineSpot :=
  { spot with front := bytes ++ spot.front }

@[simp] theorem holding_behind (spot : LineSpot) (bytes : Bytes) (line : UInt32) :
    (spot.behind bytes).holding line = bytes ++ spot.holding line :=
  List.append_assoc bytes spot.front _

/-- Arguments whose first line number is the one in the spot. The others are read from the bytes
around it. -/
structure Holds (spot : LineSpot) (line : UInt32) (arguments : List Argument) : Prop where
  numbered : spot.tag.number = Argument.lineNumberNumber
  first : ∃ before later, arguments = before ++ .lineNumber line :: later ∧
    Argument.readAll spot.front = .ok before ∧ Argument.readAll spot.back = .ok later ∧
    ∀ other, .lineNumber other ∉ before

end LineSpot

/-! ## The first line number -/

namespace Argument

variable {arguments before : List Argument} {block rest : Bytes} {tag : Attr.Tag} {length : Nat}
  {found : Option Argument} {old : UInt32} {spot : LineSpot}

theorem withFirstLine_append (unnumbered : ∀ other, .lineNumber other ∉ before)
    (line : UInt32) (rest : List Argument) :
    withFirstLine line (before ++ rest) = before ++ withFirstLine line rest := by
  induction before with
  | nil => rfl
  | cons argument others ih =>
      have different (other : UInt32) : argument ≠ .lineNumber other := by
        rintro rfl
        exact unnumbered other List.mem_cons_self
      rw [List.cons_append, withFirstLine_cons different,
        ih fun other among => unnumbered other (List.mem_cons_of_mem _ among), List.cons_append]

/-- Another line in the spot is the first one among the arguments that are read then. -/
theorem holds_withFirstLine (holds : spot.Holds old arguments) (line : UInt32) :
    spot.Holds line (withFirstLine line arguments) where
  numbered := holds.numbered
  first := by
    obtain ⟨before, later, rfl, front, back, unnumbered⟩ := holds.first
    exact ⟨before, later, withFirstLine_append unnumbered line _, front, back, unnumbered⟩

/-- An attribute in front of a spot, which is no line number, leaves the spot the first one. -/
theorem holds_behind (short : 4 + length < 65536) (padded : Bytes.aligned length ≤ rest.length)
    (first : ofRaw { tag, payload := rest.take length } = .ok found)
    (unnumbered : ∀ other, .lineNumber other ∉ found.toList) (holds : spot.Holds old arguments) :
    (spot.behind (Attr.Tree.header tag length ++ rest.take (Bytes.aligned length))).Holds old
      (found.toList ++ arguments) where
  numbered := holds.numbered
  first := by
    obtain ⟨before, later, rfl, front, back, none⟩ := holds.first
    refine ⟨found.toList ++ before, later, (List.append_assoc ..).symm, ?_, back,
      fun other among => ?_⟩
    · rw [LineSpot.behind, List.append_assoc]
      have whole : (rest.take (Bytes.aligned length)).length = Bytes.aligned length :=
        List.length_take_of_le padded
      exact readAll_replaced short (Nat.le_trans (Bytes.le_aligned length) padded)
        (List.drop_left' whole) first front
    · obtain inFound | inBefore := List.mem_append.mp among
      · exact unnumbered other inFound
      · exact none other inBefore

/-- Without a line number nothing is written over; with one, the first is. -/
theorem overwriteFirst_spot (line : UInt32) (understood : readAll block = .ok arguments) :
    ((∀ other, .lineNumber other ∉ arguments) ∧
      Attr.overwriteFirst lineNumberNumber (Bytes.little 4 line.toNat) block = block) ∨
    ∃ spot old, LineSpot.Holds spot old arguments ∧ block = spot.holding old ∧
      Attr.overwriteFirst lineNumberNumber (Bytes.little 4 line.toNat) block =
        spot.holding line := by
  have width : (Bytes.little 4 line.toNat).length = 4 := Bytes.length_little 4 _
  -- What is behind an attribute is shorter, and is written over only if the attribute is no line.
  induction size : block.length using Nat.strongRecOn generalizing block arguments with
  | _ bound ih =>
      obtain ⟨same, nothing⟩ | ⟨tag, length, rest, short, inside, rfl⟩ :=
        Attr.overwriteFirst_cases lineNumberNumber (Bytes.little 4 line.toNat) block
      · refine .inl ⟨?_, same⟩
        simp [nothing _ _ _ understood]
      · obtain ⟨found, others, first, remaining, rfl⟩ := of_readAll_header short inside understood
        rw [Attr.overwriteFirst_header tag short inside, width]
        have whole : (rest.take length).length = length := List.length_take_of_le inside
        by_cases here : tag.number = lineNumberNumber ∧ length = 4
        · obtain ⟨numbered, rfl⟩ := here
          rw [ofRaw_line numbered, exactly, if_pos whole] at first
          cases first
          refine .inr ⟨⟨[], tag, rest.drop 4⟩, .ofNat (Bytes.ofLittle (rest.take 4)),
            ⟨numbered, [], others, rfl, Attr.readAll_nil, remaining, by simp⟩,
            (LineSpot.holding_taken tag inside).symm, ?_⟩
          rw [if_pos ⟨numbered, rfl⟩]
          rfl
        · have smaller : (rest.drop (Bytes.aligned length)).length < bound := by
            rw [← size, List.length_drop, List.length_append, Attr.Tree.header,
              List.length_append, Bytes.length_little]
            omega
          have unnumbered (other : UInt32) : .lineNumber other ∉ found.toList := by
            intro among
            obtain rfl := Option.mem_toList.mp among
            exact here ⟨(number_of_ofRaw first).symm, whole ▸ length_of_ofRaw first⟩
          rw [if_neg here]
          obtain ⟨none, same⟩ | ⟨spot, old, holds, before, after⟩ := ih _ smaller remaining rfl
          · refine .inl ⟨fun other among => ?_, by rw [same, List.take_append_drop]⟩
            obtain inFound | later := List.mem_append.mp among
            · exact unnumbered other inFound
            · exact none other later
          · have padded : Bytes.aligned length ≤ rest.length := by
              by_contra beyond
              rw [List.drop_of_length_le (Nat.le_of_not_le beyond)] at before
              exact LineSpot.holding_ne_nil spot old before.symm
            refine .inr ⟨_, old, holds_behind short padded first unnumbered holds, ?_, ?_⟩
            · rw [LineSpot.holding_behind, ← before, List.append_assoc, List.take_append_drop]
            · rw [LineSpot.holding_behind, after, List.append_assoc]

end Argument

namespace Request

variable {bytes : Bytes} {segments : List Segment} {request : Request}

/-! ## The request and its bytes -/

theorem lineNumber_withLine (request : Request) (line : UInt32) :
    (request.withLine line).lineNumber? = request.lineNumber?.map fun _ => line := by
  obtain ⟨header, body, command, arguments, raw⟩ := request
  induction arguments with
  | nil => rfl
  | cons argument rest ih =>
      cases argument with
      | lineNumber other => rfl
      | _ => exact ih

/-- Writing a line number over keeps a received request and its bytes in agreement. The bytes are
read again, alone, as a request of the same header, body and command, with the line in place of
the first one among the arguments and of nothing else, and both tell the same line. Without a line
among the arguments no byte changes; otherwise the four bytes of the first line are all that
changes, between the bytes that the arguments in front of it and behind it are read from. -/
theorem withLine_agrees (received : Segment.readAll bytes = .ok segments)
    (among : .request request ∈ segments) (line : UInt32) :
    ∃ echoed : Request, Segment.readAll (request.withLine line).raw = .ok [.request echoed] ∧
      echoed.header = request.header ∧ echoed.body = request.body ∧
      echoed.command = request.command ∧
      echoed.arguments = Argument.withFirstLine line request.arguments ∧
      echoed.lineNumber? = request.lineNumber?.map (fun _ => line) ∧
      (request.withLine line).lineNumber? = echoed.lineNumber? ∧
      ((∀ other, .lineNumber other ∉ request.arguments) ∧ echoed = request ∧
          (request.withLine line).raw = request.raw ∨
        ∃ (spot : LineSpot) (old : UInt32),
          spot.Holds old request.arguments ∧ spot.Holds line echoed.arguments ∧
          request.raw = request.header.encode ++ (request.body.encode ++ spot.holding old) ∧
          (request.withLine line).raw =
            request.header.encode ++ (request.body.encode ++ spot.holding line)) := by
  obtain ⟨block, carries⟩ := exists_carries received among
  have relined := carries.relined line
  refine ⟨request.relined line, relined.readAll, rfl, rfl, rfl, rfl,
    lineNumber_relined request line,
    (lineNumber_withLine request line).trans (lineNumber_relined request line).symm, ?_⟩
  obtain ⟨none, same⟩ | ⟨spot, old, holds, before, after⟩ :=
    Argument.overwriteFirst_spot line carries.arguments
  · have untouched : (request.relined line).raw = request.raw := by
      rw [relined.raw, same, carries.raw]
      rfl
    have again := relined.readAll
    rw [untouched, carries.readAll] at again
    exact .inl ⟨none, (Segment.request.inj (List.head_eq_of_cons_eq (Except.ok.inj again))).symm,
      untouched⟩
  · exact .inr ⟨spot, old, holds, Argument.holds_withFirstLine holds line, before ▸ carries.raw,
      after ▸ relined.raw⟩

def numbered : Request :=
  let hidden := (Argument.tree (.lineNumber 1)).encode
  .compose .add 5 7 9 [.protocol 6,
    .data { tag := { number := Argument.dataNumber }, payload := hidden },
    .lineNumber 2, .lineNumber 3]

theorem withLine_agrees_numbered :
    Segment.readAll numbered.raw = .ok [.request numbered] ∧
      ∃ echoed : Request, Segment.readAll (numbered.withLine 8).raw = .ok [.request echoed] ∧
        echoed.arguments = numbered.arguments.take 2 ++ [.lineNumber 8, .lineNumber 3] ∧
        echoed.lineNumber? = some 8 := by
  have received : Segment.readAll numbered.raw = .ok [.request numbered] := by decide +kernel
  obtain ⟨echoed, again, -, -, -, arguments, told, -⟩ :=
    withLine_agrees received List.mem_cons_self 8
  exact ⟨received, echoed, again, arguments, told⟩

end Request

end NamedSets.Message
