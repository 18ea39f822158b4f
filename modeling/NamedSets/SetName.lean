import NamedSets.Bytes
import NamedSets.Fault

namespace NamedSets

structure SetName where
  text : String
  nonempty : text ≠ ""
  short : (Bytes.ofText text).length < 32
  noNul : (0 : UInt8) ∉ Bytes.ofText text
deriving DecidableEq

namespace SetName

/-- The width of a name field, its terminating zero included. -/
def fieldWidth : Nat := 32

def bytes (name : SetName) : Bytes := Bytes.ofText name.text

def ofText (text : String) : Except Fault SetName :=
  if nonempty : text ≠ "" then
    if short : (Bytes.ofText text).length < 32 then
      if noNul : (0 : UInt8) ∉ Bytes.ofText text then
        .ok { text, nonempty, short, noNul }
      else .error .nulInName
    else .error .longName
  else .error .emptyName

/-- The name in front of the first zero byte, or in all bytes if there is none. -/
def ofField (field : Bytes) : Except Fault SetName :=
  match Bytes.text? (field.takeWhile (· != 0)) with
  | some text => ofText text
  | none => .error .notUtf8

def field (name : SetName) : Bytes :=
  name.bytes ++ Bytes.zeros (fieldWidth - name.bytes.length)

theorem ofText_text (name : SetName) : ofText name.text = .ok name := by
  simp [ofText, name.nonempty, name.short, name.noNul]

theorem eq_of_text {name other : SetName} (same : name.text = other.text) : name = other := by
  cases name
  cases other
  cases same
  rfl

theorem length_field (name : SetName) : name.field.length = fieldWidth := by
  have short : name.bytes.length < 32 := name.short
  simp only [field, Bytes.zeros, fieldWidth, List.length_append, List.length_replicate]
  omega

end SetName

end NamedSets
