import NamedSets.Errno

namespace NamedSets

inductive Fault where
  -- Settings
  | malformedArgument
  | invalidInteger
  | emptyTable
  | messageSizeTooSmall
  | messageSizeTooLarge
  -- Names and families
  | emptyName
  | longName
  | nulInName
  | notUtf8
  | unknownFamilyCode
  -- Reading messages
  | shortBuffer
  | segmentLength
  | foreignSubsystem
  | unknownCommand
  | missingBody
  | attributeLength
  | unterminatedName
  | invalidName
  | invalidSetName
  | dataNotNested
  | valueNotInNetworkOrder
  | addressNotNested
  | invalidIpv4
  | invalidIpv6
  | unknownAddressKind
  -- Writing messages
  | messageFull
  | elementDoesNotFit
  -- The catalog of set types
  | typeProtocol
  | typeRegistered
  | typeNotRegistered
  | typeNotFound
  -- The table of sets
  | setExists
  | tableFull
  | noSuchSet
  | someSetInUse
  | setInUse
  | setReferenced
  | newNameTaken
  | noSecondSet
  | incompatibleSets
  | setDestroyed
  -- Storages
  | elementExists
  | noSuchElement
  | mustResize
  | cannotResize
  | timeoutUnsupported
  -- Address hashes
  | familyRequired
  | invalidNetmask
  | hashTooLarge
  | addressMissing
  | expectIpv4
  | expectIpv6
  | hashFull
  | rangeUnsupported
  -- Lists of sets
  | memberNameMissing
  | noSuchMemberSet
  | listInList
  | referenceMissing
  | noSuchReferenceSet
  | listFull
  | referenceNotMember
  | alreadyMember
  | notMember
  | noMemberAccepts
  -- Requests
  | privilegeRequired
  | protocolMissing
  | protocolVersion
  | createArgumentMissing
  | unsupportedFamily
  | setNameMissing
  | newNameMissing
  | secondNameMissing
  | notOneDataBlock
  | notDataBlock
  | dataMissing
  | elementNotInSet
  | typeOrFamilyMissing
  | noSuchType
  | notDump
  | dumpInProgress
  -- Socket options
  | unknownOption
  | shortOption
  | optionVersion
  | unknownOperation
  | optionSize
  | indexOutOfRange
  /-- A fault that a set type from outside the library reports in its own words. -/
  | foreign (errno : Errno) (offset : UInt8) (message : Option String)
deriving DecidableEq, Repr

namespace Fault

def errno : Fault → Errno
  | malformedArgument | invalidInteger | emptyTable | messageSizeTooSmall | messageSizeTooLarge
  | emptyName | longName | nulInName | notUtf8 | unknownFamilyCode
  | shortBuffer | segmentLength | foreignSubsystem
  | typeProtocol | hashTooLarge | noMemberAccepts | notDump
  | shortOption | optionSize | indexOutOfRange => .invalid
  | unknownCommand => .notSupported
  | missingBody | attributeLength | unterminatedName | invalidName | invalidSetName
  | dataNotNested | valueNotInNetworkOrder | addressNotNested | unknownAddressKind
  | addressMissing | memberNameMissing
  | protocolMissing | protocolVersion | createArgumentMissing | setNameMissing | newNameMissing
  | secondNameMissing | notOneDataBlock | notDataBlock | dataMissing
  | typeOrFamilyMissing => .protocol
  | invalidIpv4 | expectIpv4 => .ipv4Address
  | invalidIpv6 | expectIpv6 => .ipv6Address
  | messageFull | elementDoesNotFit => .messageSize
  | typeRegistered | setExists => .alreadyExists
  | typeNotRegistered | noSuchSet | setDestroyed | noSuchType => .noEntry
  | typeNotFound => .findType
  | tableFull => .maxSets
  | someSetInUse | setInUse => .setBusy
  | setReferenced => .referenced
  | newNameTaken | noSecondSet => .existingName
  | incompatibleSets => .typeMismatch
  | elementExists | noSuchElement | alreadyMember | notMember | elementNotInSet => .element
  | mustResize | cannotResize => .again
  | timeoutUnsupported => .timeout
  | familyRequired | unsupportedFamily => .family
  | invalidNetmask => .netmask
  | hashFull | rangeUnsupported | noSuchMemberSet | listInList | referenceMissing
  | noSuchReferenceSet | listFull | referenceNotMember => .typeSpecific
  | privilegeRequired => .notPermitted
  | dumpInProgress => .busy
  | unknownOption => .badDescriptor
  | optionVersion => .protocolFailure
  | unknownOperation => .badMessage
  | foreign errno _ _ => errno

/-- The place of a type-specific fault in its type's own numbering; zero for all others. -/
def offset : Fault → UInt8
  | rangeUnsupported => 4
  | listInList => 1
  | referenceMissing => 2
  | noSuchReferenceSet => 3
  | listFull => 4
  | referenceNotMember => 5
  | foreign _ offset _ => offset
  | _ => 0

/-- The wording of a fault. Only a foreign fault may have none. -/
def message? : Fault → Option String
  | malformedArgument => some "malformed module argument"
  | invalidInteger => some "Invalid integer"
  | emptyTable => some "the set table cannot be empty"
  | messageSizeTooSmall => some "the dump message size is too small"
  | messageSizeTooLarge => some "the dump message size is too large"
  | emptyName => some "the name is empty"
  | longName => some "the name is too long"
  | nulInName => some "the name contains NUL"
  | notUtf8 => some "Invalid utf-8 string"
  | unknownFamilyCode => some "Invalid enum value"
  | shortBuffer => some "the buffer is too short"
  | segmentLength => some "the segment length is too small"
  | foreignSubsystem => some "the message is not for the ipset subsystem"
  | unknownCommand => some "unknown ipset command"
  | missingBody => some "the nfnetlink header is missing"
  | attributeLength => some "invalid attribute length"
  | unterminatedName => some "the name is not NUL-terminated"
  | invalidName => some "invalid name"
  | invalidSetName => some "invalid set name"
  | dataNotNested => some "the data is not nested"
  | valueNotInNetworkOrder => some "the value is not in network order"
  | addressNotNested => some "the address is not nested"
  | invalidIpv4 => some "invalid IPv4 address"
  | invalidIpv6 => some "invalid IPv6 address"
  | unknownAddressKind => some "unknown address attribute"
  | messageFull => some "the message buffer is full"
  | elementDoesNotFit => some "an element does not fit in a message"
  | typeProtocol => some "wrong protocol version"
  | typeRegistered => some "the set type is already registered"
  | typeNotRegistered => some "the set type is not registered"
  | typeNotFound => some "cannot find the set type"
  | setExists => some "the set already exists"
  | tableFull => some "the set table is full"
  | noSuchSet => some "the set does not exist"
  | someSetInUse => some "a set is in use"
  | setInUse => some "the set is in use"
  | setReferenced => some "the set is referenced"
  | newNameTaken => some "the new name is taken"
  | noSecondSet => some "the second set does not exist"
  | incompatibleSets => some "the sets are incompatible"
  | setDestroyed => some "the set has been destroyed"
  | elementExists => some "the element already exists"
  | noSuchElement => some "the element does not exist"
  | mustResize => some "the hash table must be resized"
  | cannotResize => some "the set cannot be resized"
  | timeoutUnsupported => some "timeouts are not supported"
  | familyRequired => some "hash:ip needs an address family"
  | invalidNetmask => some "invalid netmask"
  | hashTooLarge => some "the hash size is too large"
  | addressMissing => some "the address is missing"
  | expectIpv4 => some "expect an IPv4 address"
  | expectIpv6 => some "expect an IPv6 address"
  | hashFull => some "the hash is full"
  | rangeUnsupported => some "ranges are not supported"
  | memberNameMissing => some "the member name is missing"
  | noSuchMemberSet => some "the member set does not exist"
  | listInList => some "a list cannot contain a list"
  | referenceMissing => some "the reference set is missing"
  | noSuchReferenceSet => some "the reference set does not exist"
  | listFull => some "the list is full"
  | referenceNotMember => some "the reference set is not a member"
  | alreadyMember => some "the set is already a member"
  | notMember => some "the set is not a member"
  | noMemberAccepts => some "no member accepts the packet"
  | privilegeRequired => some "CAP_NET_ADMIN is required"
  | protocolMissing => some "the protocol is missing"
  | protocolVersion => some "wrong protocol version"
  | createArgumentMissing => some "a create attribute is missing"
  | unsupportedFamily => some "unsupported family"
  | setNameMissing => some "the set name is missing"
  | newNameMissing => some "the new name is missing"
  | secondNameMissing => some "the second set name is missing"
  | notOneDataBlock => some "expect either one data block or a batch with a line number"
  | notDataBlock => some "a batch entry is not a data block"
  | dataMissing => some "the data block is missing"
  | elementNotInSet => some "the element is not in the set"
  | typeOrFamilyMissing => some "the type or family is missing"
  | noSuchType => some "the set type does not exist"
  | notDump => some "the command is not a dump"
  | dumpInProgress => some "a dump is in progress"
  | unknownOption => some "unknown socket option"
  | shortOption => some "the option buffer is too short"
  | optionVersion => some "wrong protocol version"
  | unknownOperation => some "unknown operation"
  | optionSize => some "the option buffer has a wrong size"
  | indexOutOfRange => some "the index is out of range"
  | foreign _ _ message => message

def code (fault : Fault) : Nat := fault.errno.code + fault.offset.toNat

def display (fault : Fault) : String :=
  let head := s!"{fault.errno.name} ({fault.code})"
  match fault.message? with
  | some message => s!"{head}: {message}"
  | none => head

end Fault

end NamedSets
