import NamedSets.Table.Basic

namespace NamedSets.OptionQuery

variable {σ : Type}

def optionNumber : Int := 83

inductive Operation where
  | byName
  | byIndex
  | version
deriving DecidableEq, Repr

def Operation.ofNumber? : Nat → Option Operation
  | 6 => some byName
  | 7 => some byIndex
  | 256 => some version
  | _ => none

def Operation.bufferLength : Operation → Nat
  | byName | byIndex => 8 + SetName.fieldWidth
  | version => 8

def indexField (index : Nat) : Bytes :=
  Bytes.little 2 index ++ Bytes.zeros (SetName.fieldWidth - 2)

/-- The operation that a buffer asks for. Operations below the version query carry the
protocol version, which has to be the right one. -/
def operationOf (buffer : Bytes) : Except Fault Operation :=
  if buffer.length < 4 then .error .shortOption
  else
    let number := Bytes.ofLittle (buffer.take 4)
    let version := Bytes.ofLittle ((buffer.drop 4).take 4)
    if number < 256 && buffer.length < 8 then .error .shortOption
    else if number < 256 && version ≠ protocolVersion.toNat then .error .optionVersion
    else match Operation.ofNumber? number with
      | none => .error .unknownOperation
      | some operation =>
          if buffer.length = operation.bufferLength then .ok operation
          else .error .optionSize

/-- The field that answers a query by name: the slot of the set, or the handle that never
refers to one. The last byte of the name does not count. -/
def answerByName (table : Table σ) (field : Bytes) : Bytes :=
  match SetName.ofField (field.take (SetName.fieldWidth - 1)) with
  | .ok name => indexField (Table.handle (table.find? name.text))
  | .error _ => indexField Table.invalidHandle

def answerByIndex (table : Table σ) (field : Bytes) : Except Fault Bytes :=
  let index := Bytes.ofLittle (field.take 2)
  if table.capacity ≤ index then .error .indexOutOfRange
  else match table.name? index with
    | some name => .ok name.field
    | none => .ok (Bytes.zeros SetName.fieldWidth)

/-- The buffer with the answer to the query that it holds. -/
def answer (table : Table σ) (privileged : Bool) (option : Int) (buffer : Bytes) :
    Except Fault Bytes :=
  if !privileged then .error .privilegeRequired
  else if option ≠ optionNumber then .error .unknownOption
  else
    match operationOf buffer with
    | .error fault => .error fault
    | .ok .version => .ok (buffer.take 4 ++ Bytes.little 4 protocolVersion.toNat)
    | .ok .byName => .ok (buffer.take 8 ++ answerByName table (buffer.drop 8))
    | .ok .byIndex =>
        match answerByIndex table (buffer.drop 8) with
        | .ok field => .ok (buffer.take 8 ++ field)
        | .error fault => .error fault

end NamedSets.OptionQuery
