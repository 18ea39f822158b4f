import NamedSets.Attr.Tag
import NamedSets.Fault

namespace NamedSets.Attr

def headerLength : Nat := 4

/-- An attribute whose payload nobody has interpreted yet. -/
structure Raw where
  tag : Tag
  payload : Bytes
deriving DecidableEq, Repr

structure Header where
  tag : Tag
  length : Nat
deriving DecidableEq, Repr

/-- Reads a header, whose length has to cover the header and to end within `rest`. -/
def Header.read (length₀ length₁ tag₀ tag₁ : UInt8) (rest : Bytes) : Except Fault Header :=
  let total := Bytes.ofLittle [length₀, length₁]
  let length := total - headerLength
  if total < headerLength || (rest.take length).length < length then .error .attributeLength
  else .ok { tag := Tag.ofWord (Bytes.ofLittle [tag₀, tag₁]), length }

/-- The attributes of a block, in order, without those that `read` skips. A reader sees
everything behind the header and answers how many bytes it took; the next attribute
starts behind these and behind the padded payload. Fewer than four bytes at the end are
no attribute. -/
def readAll {α : Type} (read : Header → Bytes → Except Fault (Option α × Nat)) :
    Bytes → Except Fault (List α)
  | length₀ :: length₁ :: tag₀ :: tag₁ :: rest =>
      match Header.read length₀ length₁ tag₀ tag₁ rest with
      | .error fault => .error fault
      | .ok header =>
          match read header rest with
          | .error fault => .error fault
          | .ok (found, taken) =>
              match readAll read (rest.drop (max taken (Bytes.aligned header.length))) with
              | .error fault => .error fault
              | .ok others => .ok (found.toList ++ others)
  | _ => .ok []
termination_by block => block.length
decreasing_by
  simp only [List.length_drop, List.length_cons]
  omega

def Raw.read (header : Header) (rest : Bytes) : Except Fault (Option Raw × Nat) :=
  .ok (some { tag := header.tag, payload := rest.take header.length }, header.length)

def split (block : Bytes) : Except Fault (List Raw) := readAll Raw.read block

def Raw.children (raw : Raw) : Except Fault (List Raw) := split raw.payload

/-- Writes `value` over the payload of the first attribute of this number and of the
length of `value`. A malformed header ends the search. -/
def overwriteFirst (number : BitVec 14) (value : Bytes) : Bytes → Bytes
  | length₀ :: length₁ :: tag₀ :: tag₁ :: rest =>
      length₀ :: length₁ :: tag₀ :: tag₁ ::
        match Header.read length₀ length₁ tag₀ tag₁ rest with
        | .error _ => rest
        | .ok header =>
            if header.tag.number = number ∧ header.length = value.length then
              value ++ rest.drop value.length
            else
              let next := Bytes.aligned header.length
              rest.take next ++ overwriteFirst number value (rest.drop next)
  | block => block
termination_by block => block.length
decreasing_by
  simp only [List.length_drop, List.length_cons]
  omega

end NamedSets.Attr
