/-!
# Error numbers

The numbers a failing request is answered with: those of the system, and from
4097 on those of the set protocol. `typeSpecific` is the first of a range in which
every set type numbers its own errors.
-/

namespace NamedSets

inductive Errno where
  | notPermitted
  | noEntry
  | badDescriptor
  | again
  | outOfMemory
  | badAddress
  | busy
  | alreadyExists
  | invalid
  | outOfRange
  | protocolFailure
  | badMessage
  | messageSize
  | notSupported
  | protocol
  | findType
  | maxSets
  | setBusy
  | existingName
  | typeMismatch
  | element
  | cidr
  | netmask
  | family
  | timeout
  | referenced
  | ipv4Address
  | ipv6Address
  | typeSpecific
deriving DecidableEq, Repr

namespace Errno

def code : Errno → Nat
  | notPermitted => 1
  | noEntry => 2
  | badDescriptor => 9
  | again => 11
  | outOfMemory => 12
  | badAddress => 14
  | busy => 16
  | alreadyExists => 17
  | invalid => 22
  | outOfRange => 34
  | protocolFailure => 71
  | badMessage => 74
  | messageSize => 90
  | notSupported => 95
  | protocol => 4097
  | findType => 4098
  | maxSets => 4099
  | setBusy => 4100
  | existingName => 4101
  | typeMismatch => 4102
  | element => 4103
  | cidr => 4104
  | netmask => 4105
  | family => 4106
  | timeout => 4107
  | referenced => 4108
  | ipv4Address => 4109
  | ipv6Address => 4110
  | typeSpecific => 4352

def name : Errno → String
  | notPermitted => "EPERM"
  | noEntry => "ENOENT"
  | badDescriptor => "EBADF"
  | again => "EAGAIN"
  | outOfMemory => "ENOMEM"
  | badAddress => "EFAULT"
  | busy => "EBUSY"
  | alreadyExists => "EEXIST"
  | invalid => "EINVAL"
  | outOfRange => "ERANGE"
  | protocolFailure => "EPROTO"
  | badMessage => "EBADMSG"
  | messageSize => "EMSGSIZE"
  | notSupported => "EOPNOTSUPP"
  | protocol => "IPSET_ERR_PROTOCOL"
  | findType => "IPSET_ERR_FIND_TYPE"
  | maxSets => "IPSET_ERR_MAX_SETS"
  | setBusy => "IPSET_ERR_BUSY"
  | existingName => "IPSET_ERR_EXIST_SETNAME2"
  | typeMismatch => "IPSET_ERR_TYPE_MISMATCH"
  | element => "IPSET_ERR_EXIST"
  | cidr => "IPSET_ERR_INVALID_CIDR"
  | netmask => "IPSET_ERR_INVALID_NETMASK"
  | family => "IPSET_ERR_INVALID_FAMILY"
  | timeout => "IPSET_ERR_TIMEOUT"
  | referenced => "IPSET_ERR_REFERENCED"
  | ipv4Address => "IPSET_ERR_IPADDR_IPV4"
  | ipv6Address => "IPSET_ERR_IPADDR_IPV6"
  | typeSpecific => "IPSET_ERR_TYPE_SPECIFIC"

def all : List Errno :=
  [notPermitted, noEntry, badDescriptor, again, outOfMemory, badAddress, busy, alreadyExists,
    invalid, outOfRange, protocolFailure, badMessage, messageSize, notSupported, protocol,
    findType, maxSets, setBusy, existingName, typeMismatch, element, cidr, netmask, family,
    timeout, referenced, ipv4Address, ipv6Address, typeSpecific]

def ofName? (name : String) : Option Errno := all.find? (·.name == name)

@[simp] theorem ofName_name (errno : Errno) : ofName? errno.name = some errno := by
  cases errno <;> decide

end Errno

end NamedSets
