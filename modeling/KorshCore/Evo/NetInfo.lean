import KorshCore.Primitives.Transaction

/-!
# Network addresses of a masternode

The part of `netaddress.h` and `evo/netinfo.h` that masternode lists use. A
masternode of a version before `ExtAddr` has one address (`MnNetInfo`), a later
one lists of addresses and domains by purpose (`ExtNetInfo`).

`NetRules` collects what the rules read from the chain parameters and the tests
on addresses.
-/

namespace KorshCore

/-! ## Addresses -/

/-- `enum Network`, without the two that are never stored. -/
inductive Network where
  | ipv4
  | ipv6
  | onion
  | i2p
  | cjdns
  | internal
  deriving DecidableEq, Repr

/-- `CService`: a `CNetAddr` and a port. -/
structure CService where
  net : Network
  addr : List UInt8
  port : Nat
  deriving DecidableEq, Repr

namespace CService

/-- `CService()`: the unspecified IPv6 address. -/
def null : CService := ⟨.ipv6, List.replicate 16 0, 0⟩

def isValid (service : CService) : Bool :=
  match service.net with
  | .ipv6 => service.addr != List.replicate 16 0 &&
      -- documentation addresses
      service.addr.take 4 != [0x20, 0x01, 0x0d, 0xb8]
  | .cjdns => service.addr.head? == some 0xfc
  | .internal => false
  | .ipv4 => service.addr != [0, 0, 0, 0] && service.addr != [0xff, 0xff, 0xff, 0xff]
  | .onion => true
  | .i2p => true

end CService

structure DomainPort where
  addr : List UInt8
  port : Nat
  deriving DecidableEq, Repr

def DomainPort.null : DomainPort := ⟨[], 0⟩

inductive NetInfoStatus where
  | badInput
  | duplicate
  | maxLimit
  | badAddress
  | badPort
  | badType
  | notRoutable
  | malformed
  | success
  deriving DecidableEq, Repr

/-- `NetInfoEntry`: the type code and the data always agree. -/
inductive NetInfoEntry where
  | invalid
  | service (service : CService)
  | domain (domain : DomainPort)
  deriving DecidableEq, Repr

structure NetRules where
  requireRoutableExternalIP : Bool
  isNodeOnMainnet : Bool
  /-- `MainParams().GetDefaultPort()`. -/
  defaultPort : Nat
  defaultPlatformP2PPort : Nat
  defaultPlatformHTTPPort : Nat
  isRoutable : CService → Bool
  isBadPort : Nat → Bool
  /-- `DomainPort::IsValid`. -/
  domainIsValid : DomainPort → Bool
  validateDomainPort : DomainPort → NetInfoStatus
  toStringAddr : NetInfoEntry → List UInt8

namespace NetInfoEntry

def isTriviallyValid (rules : NetRules) : NetInfoEntry → Bool
  | invalid => false
  | service s => s.isValid
  | domain d => rules.domainIsValid d

end NetInfoEntry

/-! ## The two kinds of network information -/

/-- `NetInfoPurpose::CORE_P2P` and its successors. -/
def purposeCoreP2P : Nat := 0
def purposePlatformP2P : Nat := 1
def purposePlatformHTTPS : Nat := 2

def isValidPurpose (purpose : Nat) : Bool := purpose ≤ purposePlatformHTTPS

/-- `NetInfoInterface`: an `MnNetInfo` with its only entry, or an `ExtNetInfo`
with its version and the lists by purpose. -/
inductive NetInfo where
  | mn (addr : NetInfoEntry)
  | ext (version : Nat) (data : List (Nat × List NetInfoEntry))
  deriving DecidableEq, Repr

def extNetInfoVersion : Nat := 1

def legacyMainnetP2PPort : Nat := 8383

def i2pSam31Port : Nat := 0

def validateMnService (rules : NetRules) (service : CService)
    (fAllowLegacyPort : Bool) : NetInfoStatus :=
  if !service.isValid then .badAddress
  else if service.net != .ipv4 then .badType
  else if rules.requireRoutableExternalIP && !rules.isRoutable service then .notRoutable
  else if rules.isNodeOnMainnet then
    if service.port != rules.defaultPort &&
        !(fAllowLegacyPort && service.port == legacyMainnetP2PPort) then
      .badPort
    else .success
  else if service.port == rules.defaultPort then .badPort
  else .success

def validateExtService (rules : NetRules) (service : CService) : NetInfoStatus :=
  if !service.isValid then .badAddress
  else if service.net == .internal then .badType
  else if rules.requireRoutableExternalIP && !rules.isRoutable service then .notRoutable
  else if service.net == .i2p then
    if service.port != i2pSam31Port then .badPort else .success
  else if service.port == 0 || rules.isBadPort service.port then .badPort
  else .success

/-- One entry of a list in `ExtNetInfo::Validate`. -/
def validateEntry (rules : NetRules) (purpose : Nat) (entry : NetInfoEntry) : NetInfoStatus :=
  if !entry.isTriviallyValid rules then .malformed
  else
    match entry with
    | .service s => validateExtService rules s
    | .domain d =>
      if purpose != purposePlatformHTTPS then .badInput
      else rules.validateDomainPort d
    | .invalid => .malformed

/-- One list of `ExtNetInfo::Validate`. -/
def validateEntries (rules : NetRules) (purpose : Nat)
    (entries : List NetInfoEntry) : NetInfoStatus :=
  if !isValidPurpose purpose then .malformed
  else if entries.isEmpty then .malformed
  else if ¬ (entries.map rules.toStringAddr).Nodup then .duplicate
  else ((entries.map (validateEntry rules purpose)).find? (· != .success)).getD .success

namespace NetInfo

def makeNetInfo (nVersion : Nat) : NetInfo :=
  if 3 ≤ nVersion then .ext extNetInfoVersion [] else .mn .invalid

def getEntries : NetInfo → List NetInfoEntry
  | mn .invalid => []
  | mn addr => [addr]
  | ext _ data => data.flatMap Prod.snd

def isEmpty : NetInfo → Bool
  | mn addr => addr == .invalid
  | ext version data => version == extNetInfoVersion && data.isEmpty

/-- `CanStorePlatform`: only an `ExtNetInfo` can. -/
def canStorePlatform : NetInfo → Bool
  | mn _ => false
  | ext _ _ => true

def hasEntries (netInfo : NetInfo) (purpose : Nat) : Bool :=
  match netInfo with
  | mn addr => purpose == purposeCoreP2P && addr != .invalid
  | ext _ data => isValidPurpose purpose && ((data.lookup purpose).getD []) != []

def getPrimary : NetInfo → CService
  | mn (.service s) => s
  | mn _ => .null
  | ext _ data =>
    match (data.lookup purposeCoreP2P).getD [] with
    | .service s :: _ => s
    | _ => .null

def validate (rules : NetRules) (netInfo : NetInfo) (fAllowLegacyPort : Bool) : NetInfoStatus :=
  match netInfo with
  | mn addr =>
    if !addr.isTriviallyValid rules then .malformed
    else validateMnService rules netInfo.getPrimary fAllowLegacyPort
  | ext version data =>
    if version != extNetInfoVersion || data.isEmpty then .malformed
    else if ¬ netInfo.getEntries.Nodup then .duplicate
    else ((data.map fun list => validateEntries rules list.1 list.2).find?
      (· != .success)).getD .success

end NetInfo

end KorshCore
