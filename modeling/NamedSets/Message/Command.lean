import NamedSets.Fault

namespace NamedSets.Message

inductive Command where
  | protocol
  | create
  | destroy
  | flush
  | rename
  | swap
  | list
  | save
  | add
  | delete
  | test
  | header
  | type
deriving DecidableEq, Repr

namespace Command

def number : Command → Nat
  | protocol => 1
  | create => 2
  | destroy => 3
  | flush => 4
  | rename => 5
  | swap => 6
  | list => 7
  | save => 8
  | add => 9
  | delete => 10
  | test => 11
  | header => 12
  | type => 13

def ofNumber? : Nat → Option Command
  | 1 => some protocol
  | 2 => some create
  | 3 => some destroy
  | 4 => some flush
  | 5 => some rename
  | 6 => some swap
  | 7 => some list
  | 8 => some save
  | 9 => some add
  | 10 => some delete
  | 11 => some test
  | 12 => some header
  | 13 => some type
  | _ => none

def subsystem : Nat := 6

def messageType (command : Command) : UInt16 := UInt16.ofNat (subsystem * 256 + command.number)

def ofMessageType (messageType : UInt16) : Except Fault Command :=
  if messageType.toNat / 256 = subsystem then
    match ofNumber? (messageType.toNat % 256) with
    | some command => .ok command
    | none => .error .unknownCommand
  else .error .foreignSubsystem

def isDump : Command → Bool
  | list | save => true
  | _ => false

@[simp] theorem ofNumber_number (command : Command) : ofNumber? command.number = some command := by
  cases command <;> rfl

@[simp] theorem ofMessageType_messageType (command : Command) :
    ofMessageType command.messageType = .ok command := by
  cases command <;> rfl

end Command

end NamedSets.Message
