import NamedSets.Blank
import NamedSets.Fault

namespace NamedSets

structure Settings where
  maxSets : UInt16 := 256
  /-- How often an add may resize its set before it gives up. -/
  maxResizeRetries : UInt32 := 8
  dumpMessageSize : UInt64 := 8192
deriving DecidableEq, Repr

/-- A decimal number with an optional plus sign that stays below `bound`. -/
def decimal? (bound : Nat) (text : List Char) : Option Nat :=
  let digits := match text with
    | '+' :: rest => rest
    | _ => text
  if digits ≠ [] && digits.all Char.isDigit then
    let number := digits.foldl (fun number digit => number * 10 + (digit.toNat - '0'.toNat)) 0
    if number < bound then some number else none
  else none

namespace Settings

def leastMessageSize : Nat := 512

/-- The largest message; the lengths of nested attributes have 16 bits. -/
def greatestMessageSize : Nat := 65535

/-- The effective size limit of a reply message, also for settings that were not checked. -/
def messageSize (settings : Settings) : Nat :=
  min greatestMessageSize (max leastMessageSize settings.dumpMessageSize.toNat)

/-- The number of slots; the last index is no slot, so that it can stand for "no set". -/
def capacity (settings : Settings) : Nat := min settings.maxSets.toNat 65534

/-- The settings after one more `key=value` word. -/
def assign (settings : Settings) (word : List Char) : Except Fault Settings :=
  let key := word.takeWhile (· ≠ '=')
  let value := (word.dropWhile (· ≠ '=')).drop 1
  if key = [] || value = [] then .error .malformedArgument
  else match String.ofList key with
    | "max_sets" => match decimal? UInt16.size value with
      | some number => .ok { settings with maxSets := UInt16.ofNat number }
      | none => .error .invalidInteger
    | "max_resize_retries" => match decimal? UInt32.size value with
      | some number => .ok { settings with maxResizeRetries := UInt32.ofNat number }
      | none => .error .invalidInteger
    | "dump_message_size" => match decimal? UInt64.size value with
      | some number => .ok { settings with dumpMessageSize := UInt64.ofNat number }
      | none => .error .invalidInteger
    | _ => .ok settings

def check (settings : Settings) : Except Fault Settings :=
  if settings.maxSets = 0 then .error .emptyTable
  else if settings.dumpMessageSize.toNat < leastMessageSize then .error .messageSizeTooSmall
  else if settings.dumpMessageSize.toNat > greatestMessageSize then .error .messageSizeTooLarge
  else .ok settings

def ofText (text : String) : Except Fault Settings :=
  match (blankSeparated text.toList).foldlM assign {} with
  | .ok settings => settings.check
  | .error fault => .error fault

theorem messageSize_bounds (settings : Settings) :
    512 ≤ settings.messageSize ∧ settings.messageSize ≤ 65535 := by
  unfold messageSize leastMessageSize greatestMessageSize
  omega

theorem capacity_le (settings : Settings) : settings.capacity ≤ 65534 := Nat.min_le_right _ _

end Settings

end NamedSets
