import NamedSets.Proofs.Datum.Boundaries

/-!
# Refused data

A block is refused where its reader stands: at a header that does not lie within it, or at an
attribute that the reader does not accept. Data are refused with one of three error numbers,
unless the block ends within four bytes behind the header of an address.
-/

namespace NamedSets

namespace Attr

variable {α : Type} {read : Header → Bytes → Except Fault (Option α × Nat)} {block remaining : Bytes}
  {fault : Fault} {length₀ length₁ tag₀ tag₁ : UInt8} {rest : Bytes}

/-- A header is refused for its length. -/
theorem Header.read_error (refused : Header.read length₀ length₁ tag₀ tag₁ rest = .error fault) :
    fault = .attributeLength := by
  unfold Header.read at refused
  extract_lets at refused
  split at refused
  · cases refused
    rfl
  · contradiction

theorem Header.cons_eq {header : Header}
    (found : Header.read length₀ length₁ tag₀ tag₁ rest = .ok header) :
    length₀ :: length₁ :: tag₀ :: tag₁ :: rest =
      Tree.header header.tag header.length ++ rest :=
  congrArg (· ++ rest) (Header.read_ok found).1

/-! ## Where a reader stands -/

/-- Reading a block comes to what remains of it: all attributes in front of that are accepted. -/
inductive ComesTo (read : Header → Bytes → Except Fault (Option α × Nat)) : Bytes → Bytes → Prop
  | here {block : Bytes} : ComesTo read block block
  | behind {tag : Tag} {length taken : Nat} {found : Option α} {rest remaining : Bytes}
      (short : 4 + length < 65536) (enough : length ≤ rest.length)
      (accepted : read { tag, length } rest = .ok (found, taken))
      (later : ComesTo read (rest.drop (max taken (Bytes.aligned length))) remaining) :
      ComesTo read (Tree.header tag length ++ rest) remaining

/-- A block is refused for its first header, or for what the reader makes of the attribute. -/
inductive RefusedAt (read : Header → Bytes → Except Fault (Option α × Nat)) (fault : Fault) :
    Bytes → Prop
  | header {length₀ length₁ tag₀ tag₁ : UInt8} {rest : Bytes}
      (refused : Header.read length₀ length₁ tag₀ tag₁ rest = .error fault) :
      RefusedAt read fault (length₀ :: length₁ :: tag₀ :: tag₁ :: rest)
  | reader {tag : Tag} {length : Nat} {rest : Bytes}
      (short : 4 + length < 65536) (enough : length ≤ rest.length)
      (refused : read { tag, length } rest = .error fault) :
      RefusedAt read fault (Tree.header tag length ++ rest)

theorem RefusedAt.readAll_eq (refused : RefusedAt read fault block) :
    readAll read block = .error fault := by
  cases refused with
  | header refused =>
      rw [readAll]
      simp only [refused]
  | reader short enough refused =>
      rw [readAll_header_eq _ short enough, refused]
      rfl

theorem ComesTo.readAll_eq (comes : ComesTo read block remaining)
    (refused : readAll read remaining = .error fault) : readAll read block = .error fault := by
  induction comes with
  | here => exact refused
  | behind short enough accepted later ih =>
      rw [readAll_header_eq _ short enough, accepted]
      simp only [Except.bind, ih refused, Except.map]

theorem exists_refusedAt (refused : readAll read block = .error fault) :
    ∃ remaining, ComesTo read block remaining ∧ RefusedAt read fault remaining := by
  fun_induction readAll read block with
  | case1 length₀ length₁ tag₀ tag₁ rest reason unread =>
      exact ⟨_, .here, .header (Except.error.inj refused ▸ unread)⟩
  | case2 length₀ length₁ tag₀ tag₁ rest header found reason unread =>
      obtain ⟨-, enough, short⟩ := Header.read_ok found
      rw [Header.cons_eq found]
      exact ⟨_, .here, .reader short enough (Except.error.inj refused ▸ unread)⟩
  | case3 length₀ length₁ tag₀ tag₁ rest header found item taken accepted reason unread ih =>
      obtain ⟨-, enough, short⟩ := Header.read_ok found
      obtain ⟨remaining, later, stops⟩ := ih (unread.trans refused)
      rw [Header.cons_eq found]
      exact ⟨remaining, .behind short enough accepted later, stops⟩
  | case4 => contradiction
  | case5 => contradiction

/-- A block is refused for the first place at which its reader stops. -/
theorem readAll_error_iff : readAll read block = .error fault ↔
    ∃ remaining, ComesTo read block remaining ∧ RefusedAt read fault remaining := by
  refine ⟨exists_refusedAt, ?_⟩
  rintro ⟨remaining, comes, refused⟩
  exact comes.readAll_eq refused.readAll_eq

end Attr

namespace Datum

open Attr (ComesTo Header Raw RefusedAt Tree)

variable {block : Block} {raw : Raw} {header : Header} {payload rest remaining : Bytes}
  {fault : Fault}

def malformed : List Errno := [.protocol, .ipv4Address, .ipv6Address]

/-! ## Readers -/

theorem exactly_errno {width : Nat} {make : Bytes → Except Fault Datum}
    (within : ∀ payload fault, payload.length = width → make payload = .error fault →
      fault.errno ∈ malformed)
    (enough : header.length ≤ rest.length)
    (refused : exactly width make header rest = .error fault) : fault.errno ∈ malformed := by
  unfold exactly at refused
  split at refused
  · rename_i long
    split at refused
    · contradiction
    · rename_i reason unmade
      cases refused
      exact within _ _ (List.length_take_of_le (long ▸ enough)) unmade
  · cases refused
    decide

theorem network_errno {width : Nat} {make : Nat → Datum} (enough : header.length ≤ rest.length)
    (refused : network width make header rest = .error fault) : fault.errno ∈ malformed := by
  refine exactly_errno (fun payload reason _ unmade => ?_) enough refused
  split at unmade
  · contradiction
  · cases unmade
    decide

theorem networkHalf_errno {make : UInt16 → Datum} (enough : header.length ≤ rest.length)
    (refused : networkHalf make header rest = .error fault) : fault.errno ∈ malformed :=
  network_errno enough refused

theorem networkWord_errno {make : UInt32 → Datum} (enough : header.length ≤ rest.length)
    (refused : networkWord make header rest = .error fault) : fault.errno ∈ malformed :=
  network_errno enough refused

theorem octet_errno {make : UInt8 → Datum} (enough : header.length ≤ rest.length)
    (refused : octet make header rest = .error fault) : fault.errno ∈ malformed :=
  exactly_errno (fun _ _ _ unmade => by contradiction) enough refused

theorem word_errno {make : UInt32 → Datum} (enough : header.length ≤ rest.length)
    (refused : word make header rest = .error fault) : fault.errno ∈ malformed :=
  exactly_errno (fun _ _ _ unmade => by contradiction) enough refused

theorem hardwareAddress_errno {make : Vector UInt8 6 → Datum}
    (enough : header.length ≤ rest.length)
    (refused : hardwareAddress make header rest = .error fault) : fault.errno ∈ malformed := by
  refine exactly_errno (fun payload reason long unmade => ?_) enough refused
  rw [dif_pos long] at unmade
  contradiction

theorem setName_errno {make : SetName → Datum}
    (refused : setName make header rest = .error fault) : fault.errno ∈ malformed := by
  unfold setName at refused
  split at refused
  · split at refused
    · contradiction
    · cases refused
      decide
  · cases refused
    decide

/-- An address is refused as malformed, unless not even the header of its octets is there. -/
theorem nestedAddress_errno (refused : nestedAddress payload = .error fault) :
    fault.errno ∈ malformed ∨ fault = .shortBuffer ∧ payload.length < Attr.headerLength := by
  unfold nestedAddress at refused
  split at refused
  · left
    split at refused
    · rename_i reason unread
      cases refused
      rw [Header.read_error unread]
      decide
    · split at refused <;> first | contradiction | (cases refused; decide)
  · rename_i few
    cases refused
    refine .inr ⟨rfl, ?_⟩
    rcases payload with _ | ⟨_, _ | ⟨_, _ | ⟨_, _ | ⟨_, _⟩⟩⟩⟩
    case cons.cons.cons.cons => exact (few _ _ _ _ _ rfl).elim
    all_goals simp [Attr.headerLength]

theorem nestedAddress_few (few : payload.length < Attr.headerLength) :
    nestedAddress payload = .error .shortBuffer := by
  rcases payload with _ | ⟨_, _ | ⟨_, _ | ⟨_, _ | ⟨_, _⟩⟩⟩⟩
  case cons.cons.cons.cons =>
    simp only [Attr.headerLength, List.length_cons] at few
    omega
  all_goals rfl

/-- Behind the header of an address, the block ends within four bytes. -/
structure Breaks (block : Block) (header : Header) (rest : Bytes) : Prop where
  address : Kind.ofNumber? block header.tag.number ∈ [some .ip, some .ipTo, some .ip2]
  nested : header.tag.nested = true
  few : rest.length < Attr.headerLength

theorem address_errno {make : Address → Datum}
    (refused : address make header rest = .error fault) :
    fault.errno ∈ malformed ∨
      fault = .shortBuffer ∧ header.tag.nested = true ∧ rest.length < Attr.headerLength := by
  unfold address at refused
  split at refused
  · rename_i nested
    split at refused
    · contradiction
    · rename_i reason unread
      cases refused
      obtain known | ⟨short, few⟩ := nestedAddress_errno unread
      · exact .inl known
      · exact .inr ⟨short, nested, few⟩
  · cases refused
    exact .inl (by decide)

theorem read_errno (enough : header.length ≤ rest.length)
    (refused : read block header rest = .error fault) :
    fault.errno ∈ malformed ∨ fault = .shortBuffer ∧ Breaks block header rest := by
  unfold read at refused
  split at refused
  · rename_i kind known
    cases kind with
    | unspecified =>
        cases refused
        exact .inl (by decide)
    | ip | ipTo | ip2 =>
        obtain numbered | ⟨short, nested, few⟩ := address_errno refused
        · exact .inl numbered
        · exact .inr ⟨short, by simp [known], nested, few⟩
    | cidr | proto | netmask | probes | resize | cidr2 => exact .inl (octet_errno enough refused)
    | firstPort | lastPort => exact .inl (networkHalf_errno enough refused)
    | timeout | elementFlags | gc | hashSize | maxElements | size =>
        exact .inl (networkWord_errno enough refused)
    | lineNumber => exact .inl (word_errno enough refused)
    | ether => exact .inl (hardwareAddress_errno enough refused)
    | elements | references | memorySize => contradiction
    | name | nameRef => exact .inl (setName_errno refused)
  · contradiction

theorem Breaks.read_eq (breaks : Breaks block header rest) :
    read block header rest = .error .shortBuffer := by
  have known := breaks.address
  simp only [List.mem_cons, List.not_mem_nil, or_false] at known
  rcases known with known | known | known <;>
    simp only [read, known, Kind.reader, Datum.address, if_pos breaks.nested,
      nestedAddress_few breaks.few]

/-! ## Blocks -/

/-- What remains of a block is the header of an address and fewer than four bytes, in which the
attribute ends. -/
def CutOff (block : Block) (remaining : Bytes) : Prop :=
  ∃ header : Header, ∃ rest, remaining = Tree.header header.tag header.length ++ rest ∧
    header.length ≤ rest.length ∧ Breaks block header rest

theorem CutOff.refusedAt (cut : CutOff block remaining) :
    RefusedAt (read block) .shortBuffer remaining := by
  obtain ⟨header, rest, rfl, enough, breaks⟩ := cut
  have short : 4 + header.length < 65536 := by
    have few := breaks.few
    simp only [Attr.headerLength] at few
    omega
  exact .reader short enough breaks.read_eq

theorem refusedAt_errno (refused : RefusedAt (read block) fault remaining) :
    fault.errno ∈ malformed ∨ fault = .shortBuffer ∧ CutOff block remaining := by
  cases refused with
  | header refused =>
      rw [Header.read_error refused]
      exact .inl (by decide)
  | reader short enough refused =>
      obtain numbered | ⟨buffer, breaks⟩ := read_errno enough refused
      · exact .inl numbered
      · exact .inr ⟨buffer, _, _, rfl, enough, breaks⟩

/-- Data are read or refused with an error number for malformed data, unless reading comes to an
address that is cut off. Then, and only then, they are refused as a buffer that is too short. -/
theorem refused_as_malformed (block : Block) (raw : Raw) :
    (∀ fault, readAll block raw = .error fault →
      fault.errno ∈ malformed ∨ fault = .shortBuffer) ∧
    (readAll block raw = .error .shortBuffer ↔ raw.tag.nested = true ∧
      ∃ remaining, ComesTo (read block) raw.payload remaining ∧ CutOff block remaining) := by
  unfold readAll
  split
  · rename_i nested
    simp only [Attr.readAll_error_iff, nested, true_and]
    refine ⟨?_, ?_, ?_⟩
    · rintro fault ⟨remaining, -, refused⟩
      exact (refusedAt_errno refused).imp_right And.left
    · rintro ⟨remaining, comes, refused⟩
      obtain impossible | ⟨-, cut⟩ := refusedAt_errno refused
      · exact absurd impossible (by decide)
      · exact ⟨remaining, comes, cut⟩
    · rintro ⟨remaining, comes, cut⟩
      exact ⟨remaining, comes, cut.refusedAt⟩
  · rename_i plain
    refine ⟨?_, ?_⟩
    · rintro fault refused
      cases refused
      exact .inl (by decide)
    · simp [plain]

def bareAddress : Raw where
  tag := { number := Message.Argument.dataNumber, nested := true }
  payload := [0x04, 0x00, 0x01, 0x80]

theorem bareAddress_errno :
    readAll .set bareAddress = .error .shortBuffer ∧
    readAll .element bareAddress = .error .shortBuffer ∧
    Fault.shortBuffer.errno = .invalid ∧ Errno.invalid ∉ malformed := by
  refine ⟨?_, ?_, ?_, ?_⟩ <;> decide +kernel

end Datum

end NamedSets
