import NamedSets.Proofs.Attr.Boundaries
import NamedSets.Proofs.Message.Received

namespace NamedSets

/-! ## Blocks that are written over -/

namespace Attr

variable {α : Type} {read : Header → Bytes → Except Fault (Option α × Nat)} {block rest : Bytes}
  {number : BitVec 14} {value : Bytes}

/-- Nothing is written over, and no attribute read, in a block that does not start with a header
and its payload. -/
theorem overwriteFirst_cases (number : BitVec 14) (value block : Bytes) :
    (overwriteFirst number value block = block ∧
      ∀ (α : Type) (read : Header → Bytes → Except Fault (Option α × Nat)) (items : List α),
        readAll read block = .ok items → items = []) ∨
    ∃ tag length rest, 4 + length < 65536 ∧ length ≤ rest.length ∧
      block = Tree.header tag length ++ rest := by
  match block with
  | length₀ :: length₁ :: tag₀ :: tag₁ :: rest =>
      cases found : Header.read length₀ length₁ tag₀ tag₁ rest with
      | error fault =>
          refine .inl ⟨by simp [overwriteFirst, found], fun α read items parts => ?_⟩
          rw [readAll] at parts
          simp [found] at parts
      | ok header =>
          obtain ⟨written, inside, short⟩ := Header.read_ok found
          exact .inr ⟨header.tag, header.length, rest, short, inside, by rw [← written]; rfl⟩
  | [] | [_] | [_, _] | [_, _, _] =>
      refine .inl ⟨by simp [overwriteFirst], fun α read items parts => ?_⟩
      rw [readAll.eq_def] at parts
      cases parts
      rfl

theorem overwriteFirst_header (tag : Tag) {length : Nat} (short : 4 + length < 65536)
    (enough : length ≤ rest.length) :
    overwriteFirst number value (Tree.header tag length ++ rest) =
      Tree.header tag length ++
        if tag.number = number ∧ length = value.length then value ++ rest.drop value.length
        else rest.take (Bytes.aligned length) ++
          overwriteFirst number value (rest.drop (Bytes.aligned length)) := by
  obtain ⟨_, _, _, _, written, header⟩ := exists_header_read tag short enough
  simp only [written, List.cons_append, List.nil_append]
  rw [overwriteFirst]
  simp only [header]

@[simp] theorem length_overwriteFirst (number : BitVec 14) (value block : Bytes) :
    (overwriteFirst number value block).length = block.length := by
  induction size : block.length using Nat.strongRecOn generalizing block with
  | _ bound ih =>
      obtain ⟨same, -⟩ | ⟨tag, length, rest, short, inside, rfl⟩ :=
        overwriteFirst_cases number value block
      · rw [same, size]
      · rw [overwriteFirst_header tag short inside, ← size]
        simp only [List.length_append, Tree.header, Bytes.length_little] at size ⊢
        split
        · rename_i here
          rw [List.length_append, List.length_drop]
          omega
        · have smaller : (rest.drop (Bytes.aligned length)).length < bound := by
            rw [List.length_drop]
            omega
          rw [List.length_append, ih _ smaller _ rfl, List.length_take, List.length_drop]
          omega

end Attr

/-! ## Arguments with another line -/

namespace Message

namespace Argument

variable {argument : Argument} {arguments : List Argument} {block rest : Bytes}
  {raw : Attr.Raw} {line other : UInt32}

def withFirstLine (line : UInt32) : List Argument → List Argument
  | [] => []
  | .lineNumber _ :: rest => .lineNumber line :: rest
  | argument :: rest => argument :: withFirstLine line rest

theorem ofRaw_line (numbered : raw.tag.number = lineNumberNumber) :
    ofRaw raw = exactly 4 (fun number => .lineNumber (.ofNat number)) raw.payload := by
  rw [ofRaw, numbered]
  rfl

theorem exactly_ok {width : Nat} {make : Nat → Argument} {payload : Bytes}
    (understood : exactly width make payload = .ok (some argument)) :
    payload.length = width ∧ argument = make (Bytes.ofLittle payload) := by
  unfold exactly at understood
  split at understood
  · rename_i wide
    cases understood
    exact ⟨wide, rfl⟩
  · contradiction

theorem named_ok {make : SetName → Argument} {payload : Bytes}
    (understood : named make payload = .ok (some argument)) : ∃ name, argument = make name := by
  unfold named at understood
  split at understood
  · split at understood
    · rename_i name _
      cases understood
      exact ⟨name, rfl⟩
    · contradiction
  · contradiction

/-- An attribute is understood as an argument of its own number. -/
theorem number_of_ofRaw (understood : ofRaw raw = .ok (some argument)) :
    argument.number = raw.tag.number := by
  unfold ofRaw at understood
  refine BitVec.eq_of_toNat_eq (Eq.symm ?_)
  split at understood
  case h_2 number | h_3 number =>
    obtain ⟨name, rfl⟩ := named_ok understood
    exact number
  case h_7 number | h_8 number =>
    cases understood
    exact number
  case h_11 => cases understood
  all_goals
    rename_i number
    obtain ⟨-, rfl⟩ := exactly_ok understood
    exact number

theorem readAll_header (tag : Attr.Tag) {length : Nat} (short : 4 + length < 65536)
    (enough : length ≤ rest.length) :
    readAll (Attr.Tree.header tag length ++ rest) =
      (ofRaw { tag, payload := rest.take length }).bind fun found =>
        (readAll (rest.drop (Bytes.aligned length))).map (found.toList ++ ·) := by
  rw [readAll, Attr.readAll_header_eq tag short enough]
  simp only [read]
  cases ofRaw { tag, payload := rest.take length } with
  | error fault => rfl
  | ok found =>
      simp only [Except.bind, Nat.max_eq_right (Bytes.le_aligned length)]
      rfl

theorem withFirstLine_cons (different : ∀ other, argument ≠ .lineNumber other)
    (line : UInt32) (rest : List Argument) :
    withFirstLine line (argument :: rest) = argument :: withFirstLine line rest := by
  cases argument with
  | lineNumber other => exact absurd rfl (different other)
  | _ => rfl

theorem length_of_ofRaw (understood : ofRaw raw = .ok (some (.lineNumber other))) :
    raw.payload.length = 4 := by
  rw [ofRaw_line (number_of_ofRaw understood).symm] at understood
  exact (exactly_ok understood).1

theorem ofRaw_little {tag : Attr.Tag} (numbered : tag.number = lineNumberNumber) (line : UInt32) :
    ofRaw { tag, payload := Bytes.little 4 line.toNat } = .ok (some (.lineNumber line)) := by
  rw [ofRaw_line numbered, exactly, if_pos (Bytes.length_little 4 _), Bytes.ofLittle_little]
  simp

theorem of_readAll_header {tag : Attr.Tag} {length : Nat} (short : 4 + length < 65536)
    (enough : length ≤ rest.length)
    (understood : readAll (Attr.Tree.header tag length ++ rest) = .ok arguments) :
    ∃ found others, ofRaw { tag, payload := rest.take length } = .ok found ∧
      readAll (rest.drop (Bytes.aligned length)) = .ok others ∧
      arguments = found.toList ++ others := by
  rw [readAll_header tag short enough] at understood
  cases first : ofRaw { tag, payload := rest.take length } with
  | error fault => simp [first, Except.bind] at understood
  | ok found =>
      cases remaining : readAll (rest.drop (Bytes.aligned length)) with
      | error fault => simp [first, remaining, Except.bind, Except.map] at understood
      | ok others =>
          simp only [first, remaining, Except.bind, Except.map, Except.ok.injEq] at understood
          exact ⟨found, others, rfl, rfl, understood.symm⟩

/-- A line is read where it was written over the payload of an attribute. -/
theorem readAll_written {tag : Attr.Tag} (numbered : tag.number = lineNumberNumber)
    (line : UInt32) (remaining : readAll rest = .ok arguments) :
    readAll (Attr.Tree.header tag 4 ++ (Bytes.little 4 line.toNat ++ rest)) =
      .ok (.lineNumber line :: arguments) := by
  have width : (Bytes.little 4 line.toNat).length = 4 := Bytes.length_little 4 _
  have enough : 4 ≤ (Bytes.little 4 line.toNat ++ rest).length := by
    rw [List.length_append, width]
    exact Nat.le_add_right 4 _
  have unpadded : Bytes.aligned 4 = 4 := rfl
  rw [readAll_header tag (by decide) enough, List.take_left' width, ofRaw_little numbered,
    unpadded, List.drop_left' width]
  simp only [remaining, Except.bind, Except.map]
  rfl

theorem drop_overwritten (number : BitVec 14) (value rest : Bytes) (next : Nat) :
    (rest.take next ++ Attr.overwriteFirst number value (rest.drop next)).drop next =
      Attr.overwriteFirst number value (rest.drop next) := by
  rw [List.drop_append, List.drop_of_length_le (List.length_take_le _ _), List.nil_append]
  by_cases enough : next ≤ rest.length
  · rw [List.length_take_of_le enough, Nat.sub_self, List.drop_zero]
  · have nothing : rest.drop next = [] := List.drop_of_length_le (by omega)
    have stays : Attr.overwriteFirst number value (rest.drop next) = [] := by
      rw [← List.length_eq_zero_iff, Attr.length_overwriteFirst, nothing]
      rfl
    rw [stays, List.drop_nil]

/-- An attribute is read as before in front of whatever is put behind its padding. -/
theorem readAll_replaced {tag : Attr.Tag} {length : Nat} {found : Option Argument} {more : Bytes}
    (short : 4 + length < 65536) (inside : length ≤ rest.length)
    (behind : (rest.take (Bytes.aligned length) ++ more).drop (Bytes.aligned length) = more)
    (first : ofRaw { tag, payload := rest.take length } = .ok found)
    (later : readAll more = .ok arguments) :
    readAll (Attr.Tree.header tag length ++ (rest.take (Bytes.aligned length) ++ more)) =
      .ok (found.toList ++ arguments) := by
  have fits := Bytes.le_aligned length
  have payload : (rest.take (Bytes.aligned length) ++ more).take length = rest.take length := by
    rw [List.take_append_of_le_length (by rw [List.length_take]; omega), List.take_take,
      Nat.min_eq_left fits]
  have enough : length ≤ (rest.take (Bytes.aligned length) ++ more).length := by
    rw [List.length_append, List.length_take]
    omega
  rw [readAll_header tag short enough, payload, first, behind]
  simp only [later, Except.bind, Except.map]

/-- The bytes with a line number in place of the first one are read as the arguments with the
line number in place of the first one. -/
theorem readAll_overwriteFirst (line : UInt32) (understood : readAll block = .ok arguments) :
    readAll (Attr.overwriteFirst lineNumberNumber (Bytes.little 4 line.toNat) block) =
      .ok (withFirstLine line arguments) := by
  have width : (Bytes.little 4 line.toNat).length = 4 := Bytes.length_little 4 _
  -- What is behind an attribute is shorter, and is written over only if the attribute is no line.
  induction size : block.length using Nat.strongRecOn generalizing block arguments with
  | _ bound ih =>
      obtain ⟨same, nothing⟩ | ⟨tag, length, rest, short, inside, rfl⟩ :=
        Attr.overwriteFirst_cases lineNumberNumber (Bytes.little 4 line.toNat) block
      · rw [same, understood, nothing _ _ _ understood]
        rfl
      · obtain ⟨found, others, first, remaining, rfl⟩ := of_readAll_header short inside understood
        rw [Attr.overwriteFirst_header tag short inside, width]
        have whole : (rest.take length).length = length := List.length_take_of_le inside
        by_cases here : tag.number = lineNumberNumber ∧ length = 4
        · obtain ⟨numbered, rfl⟩ := here
          rw [ofRaw_line numbered, exactly, if_pos whole] at first
          cases first
          rw [if_pos ⟨numbered, rfl⟩]
          exact readAll_written numbered line remaining
        · have smaller : (rest.drop (Bytes.aligned length)).length < bound := by
            rw [← size, List.length_drop, List.length_append, Attr.Tree.header,
              List.length_append, Bytes.length_little]
            omega
          rw [if_neg here, readAll_replaced short inside (drop_overwritten ..) first
            (ih _ smaller remaining rfl)]
          cases found with
          | none => rfl
          | some argument =>
              have different (other : UInt32) : argument ≠ .lineNumber other := by
                rintro rfl
                exact here ⟨(number_of_ofRaw first).symm, whole ▸ length_of_ofRaw first⟩
              simp only [Option.toList_some, List.singleton_append, withFirstLine_cons different]

end Argument

namespace Request

variable {request : Request} {block : Bytes} {line : UInt32}

/-- The request that is read from the bytes of another one with a line number written over. -/
def relined (request : Request) (line : UInt32) : Request :=
  { request.withLine line with arguments := Argument.withFirstLine line request.arguments }

theorem Carries.relined (carries : request.Carries block) (line : UInt32) :
    (request.relined line).Carries
      (Attr.overwriteFirst Argument.lineNumberNumber (Bytes.little 4 line.toNat) block) where
  length := by
    rw [Attr.length_overwriteFirst]
    exact carries.length
  command := carries.command
  arguments := Argument.readAll_overwriteFirst line carries.arguments
  raw := by
    have head : (request.header.encode ++ request.body.encode).length = headLength := by simp; rfl
    simp only [Request.relined, withLine, carries.raw]
    rw [← List.append_assoc, List.take_left' head, List.drop_left' head, List.append_assoc]

theorem lineNumber_relined (request : Request) (line : UInt32) :
    (request.relined line).lineNumber? = request.lineNumber?.map fun _ => line := by
  obtain ⟨header, body, command, arguments, raw⟩ := request
  induction arguments with
  | nil => rfl
  | cons argument rest ih =>
      cases argument with
      | lineNumber other => rfl
      | _ => exact ih

/-- What is read from the bytes of a request in which a line may have been written over. -/
theorem exists_echo (carries : request.Carries block) (numbered : request.lineNumber?.isSome)
    (line? : Option UInt32) :
    ∃ (echoed : Request) (content : Bytes),
      echoed.Carries content ∧ echoed.header = request.header ∧
      (line?.elim request request.withLine).raw = echoed.raw ∧
      echoed.lineNumber? = line?.or request.lineNumber? := by
  cases line? with
  | none => exact ⟨request, block, carries, rfl, rfl, rfl⟩
  | some line =>
      obtain ⟨old, told⟩ := Option.isSome_iff_exists.mp numbered
      refine ⟨request.relined line, _, carries.relined line, rfl, rfl, ?_⟩
      rw [lineNumber_relined, told]
      rfl

end Request

end Message

end NamedSets
