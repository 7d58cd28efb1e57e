import KorshCore.Evo.MNState
import KorshCore.Lib.Holdings
import Mathlib.Data.List.Sort

/-!
# The deterministic masternode list

`CDeterministicMNList` of `evo/deterministicmns.h`: the masternodes by the hash
of their registration, by internal id, and a map of their unique properties,
which are the collateral, the addresses and the keys.

A throw leaves the list as it was, so the model returns a list only where the
call succeeds.

The properties are hashed. The hash function is a parameter, and the type of
hashes is left open. A `CKeyID` and a `uint160` are hashed alike, and an
operator key is hashed with the bytes of its scheme.
-/

namespace KorshCore

open Except

structure CDeterministicMN where
  internalId : Nat
  proTxHash : Uint256
  collateralOutpoint : COutPoint
  nOperatorReward : Nat
  nType : MnType
  pdmnState : CDeterministicMNState
  deriving DecidableEq, Repr

/-! ## Unique properties -/

inductive UniqueProperty where
  | outpoint (outpoint : COutPoint)
  | service (service : CService)
  | domain (domain : DomainPort)
  | id160 (id : Uint160)
  | operatorKey (key : Option CBLSLazyPublicKey)
  deriving DecidableEq, Repr

namespace UniqueProperty

/-- `v == nullValue`. -/
def isNull : UniqueProperty → Bool
  | outpoint o => o.isNull
  | service s => s == .null
  | domain d => d == .null
  | id160 id => id == 0
  | operatorKey key => key.isNone

/-- `oldValue == newValue`. -/
def same : UniqueProperty → UniqueProperty → Bool
  | operatorKey a, operatorKey b => sameKey a b
  | v, w => v == w

end UniqueProperty

/-- The property of a network entry, if it is a valid one. -/
def NetInfoEntry.property : NetInfoEntry → Option UniqueProperty
  | .invalid => none
  | .service s => some (.service s)
  | .domain d => some (.domain d)

inductive PropertyKind where
  | collateralOutpoint
  | address
  /-- "invalid address". -/
  | invalidAddress
  | keyIDOwner
  | pubKeyOperator
  | platformNodeID
  deriving DecidableEq, Repr

inductive ListError where
  /-- "Can't add a masternode with a duplicate proTxHash". -/
  | duplicateProTxHash
  /-- "Can't add a masternode with a duplicate internalId". -/
  | duplicateInternalId
  /-- "Can't add a masternode … with a duplicate …". -/
  | cantAdd (kind : PropertyKind)
  /-- "Can't update (a) masternode … with …". -/
  | cantUpdate (kind : PropertyKind)
  /-- "Can't delete a masternode … with …". -/
  | cantDelete (kind : PropertyKind)
  /-- "Can't find a masternode with proTxHash". -/
  | cantFind
  /-- "can't find a removed masternode". -/
  | cantFindRemoved
  /-- "can't find an updated masternode". -/
  | cantFindUpdated
  deriving DecidableEq, Repr

section Properties

variable {H : Type} [DecidableEq H] (hash : UniqueProperty → H)

abbrev PropertyMap (H : Type) := Holdings H Uint256

def addUniqueProperty (proTxHash : Uint256) (v : UniqueProperty)
    (map : PropertyMap H) : Option (PropertyMap H) :=
  if v.isNull then none else map.add proTxHash (hash v)

def deleteUniqueProperty (proTxHash : Uint256) (oldValue : UniqueProperty)
    (map : PropertyMap H) : Option (PropertyMap H) :=
  if oldValue.isNull then none else map.delete proTxHash (hash oldValue)

def updateUniqueProperty (proTxHash : Uint256)
    (oldValue newValue : UniqueProperty) (map : PropertyMap H) : Option (PropertyMap H) :=
  if oldValue.same newValue then some map
  else do
    let map ← (if oldValue.isNull then some map
      else deleteUniqueProperty hash proTxHash oldValue map)
    if newValue.isNull then some map
    else addUniqueProperty hash proTxHash newValue map

def entryStep (step : UniqueProperty → PropertyMap H → Option (PropertyMap H))
    (fail : PropertyKind → ListError) (map : PropertyMap H)
    (entry : NetInfoEntry) : Except ListError (PropertyMap H) :=
  match entry.property with
  | none => .error (fail .invalidAddress)
  | some v => ofOption (fail .address) (step v map)

def addProperties (dmn : CDeterministicMN) (map : PropertyMap H) :
    Except ListError (PropertyMap H) := do
  let add := addUniqueProperty hash dmn.proTxHash
  let state := dmn.pdmnState
  let map ← ofOption (.cantAdd .collateralOutpoint)
    (add (.outpoint dmn.collateralOutpoint) map)
  let map ← state.netInfo.getEntries.foldlM (entryStep add .cantAdd) map
  let map ← ofOption (.cantAdd .keyIDOwner) (add (.id160 state.keyIDOwner) map)
  let map ← ofOption (.cantAdd .pubKeyOperator) (if state.pubKeyOperator.isNone then some map
      else add (.operatorKey state.pubKeyOperator) map)
  ofOption (.cantAdd .platformNodeID) (if dmn.nType = .evo then
      if state.platformNodeID == 0 then some map
      else add (.id160 state.platformNodeID) map
    else some map)

def deleteProperties (dmn : CDeterministicMN) (map : PropertyMap H) :
    Except ListError (PropertyMap H) := do
  let delete := deleteUniqueProperty hash dmn.proTxHash
  let state := dmn.pdmnState
  let map ← ofOption (.cantDelete .collateralOutpoint)
    (delete (.outpoint dmn.collateralOutpoint) map)
  let map ← state.netInfo.getEntries.foldlM (entryStep delete .cantDelete) map
  let map ← ofOption (.cantDelete .keyIDOwner) (delete (.id160 state.keyIDOwner) map)
  let map ← ofOption (.cantDelete .pubKeyOperator)
    (if state.pubKeyOperator.isNone then some map
      else delete (.operatorKey state.pubKeyOperator) map)
  ofOption (.cantDelete .platformNodeID) (if dmn.nType = .evo then
      if state.platformNodeID == 0 then some map
      else delete (.id160 state.platformNodeID) map
    else some map)

def updateNetInfo (proTxHash : Uint256) (oldInfo newInfo : NetInfo)
    (map : PropertyMap H) : Except ListError (PropertyMap H) :=
  if oldInfo = newInfo then .ok map
  else do
    let map ← oldInfo.getEntries.foldlM
      (entryStep (deleteUniqueProperty hash proTxHash) .cantUpdate) map
    newInfo.getEntries.foldlM (entryStep (addUniqueProperty hash proTxHash) .cantUpdate) map

def updateProperties (oldDmn : CDeterministicMN)
    (pdmnState : CDeterministicMNState) (map : PropertyMap H) :
    Except ListError (PropertyMap H) := do
  let update := updateUniqueProperty hash oldDmn.proTxHash
  let oldState := oldDmn.pdmnState
  let map ← updateNetInfo hash oldDmn.proTxHash oldState.netInfo pdmnState.netInfo map
  let map ← ofOption (.cantUpdate .keyIDOwner)
    (update (.id160 oldState.keyIDOwner) (.id160 pdmnState.keyIDOwner) map)
  let map ← ofOption (.cantUpdate .pubKeyOperator)
    (update (.operatorKey oldState.pubKeyOperator) (.operatorKey pdmnState.pubKeyOperator) map)
  ofOption (.cantUpdate .platformNodeID)
    (if oldDmn.nType = .evo then
      update (.id160 oldState.platformNodeID) (.id160 pdmnState.platformNodeID) map
    else some map)

end Properties

/-! ## Lists -/

structure CDeterministicMNList (H : Type) where
  blockHash : Uint256
  nHeight : Int
  nTotalRegisteredCount : Nat
  mnMap : KeyedMap Uint256 CDeterministicMN
  mnInternalIdMap : KeyedMap Nat Uint256
  mnUniquePropertyMap : PropertyMap H

/-- `CDeterministicMNListDiff`. The order of `updatedMNs` is that of the
unordered map. -/
structure CDeterministicMNListDiff where
  addedMNs : List CDeterministicMN
  updatedMNs : KeyedMap Nat CDeterministicMNStateDiff
  removedMns : List Nat

namespace CDeterministicMNList

variable {H : Type} [DecidableEq H] (hash : UniqueProperty → H)

/-- `CDeterministicMNList(blockHash, height, totalRegisteredCount)`. -/
def make (blockHash : Uint256) (nHeight : Int) (nTotalRegisteredCount : Nat) :
    CDeterministicMNList H :=
  ⟨blockHash, nHeight, nTotalRegisteredCount, ∅, ∅, ∅⟩

def empty : CDeterministicMNList H := make 0 (-1) 0

def mns (l : CDeterministicMNList H) : List CDeterministicMN :=
  l.mnMap.entries.map Sigma.snd

def getMN (l : CDeterministicMNList H) (proTxHash : Uint256) :
    Option CDeterministicMN := l.mnMap.lookup proTxHash

def getMNByInternalId (l : CDeterministicMNList H) (internalId : Nat) :
    Option CDeterministicMN := do
  let proTxHash ← l.mnInternalIdMap.lookup internalId
  l.getMN proTxHash

def hasUniqueProperty (l : CDeterministicMNList H) (v : UniqueProperty) : Bool :=
  (l.mnUniquePropertyMap.lookup (hash v)).isSome

def getUniquePropertyMN (l : CDeterministicMNList H) (v : UniqueProperty) :
    Option CDeterministicMN := do
  let p ← l.mnUniquePropertyMap.lookup (hash v)
  l.getMN p.1

/-- `AddMN`. The counter has 32 bits. -/
def addMN (l : CDeterministicMNList H) (dmn : CDeterministicMN)
    (fBumpTotalCount : Bool) : Except ListError (CDeterministicMNList H) := do
  if (l.getMN dmn.proTxHash).isSome then .error .duplicateProTxHash
  else if (l.mnInternalIdMap.lookup dmn.internalId).isSome then
    .error .duplicateInternalId
  else
    let map ← addProperties hash dmn l.mnUniquePropertyMap
    .ok { l with
      mnMap := l.mnMap.insert dmn.proTxHash dmn
      mnInternalIdMap := l.mnInternalIdMap.insert dmn.internalId dmn.proTxHash
      mnUniquePropertyMap := map
      nTotalRegisteredCount :=
        if fBumpTotalCount then max (dmn.internalId + 1) l.nTotalRegisteredCount % 2 ^ 32
        else l.nTotalRegisteredCount }

/-- `UpdateMN(oldDmn, pdmnState)`. -/
def updateMNState (l : CDeterministicMNList H) (oldDmn : CDeterministicMN)
    (pdmnState : CDeterministicMNState) : Except ListError (CDeterministicMNList H) := do
  let map ← updateProperties hash oldDmn pdmnState l.mnUniquePropertyMap
  .ok { l with
    mnMap := l.mnMap.insert oldDmn.proTxHash { oldDmn with pdmnState := pdmnState }
    mnUniquePropertyMap := map }

/-- `UpdateMN(proTxHash, pdmnState)`. -/
def updateMN (l : CDeterministicMNList H) (proTxHash : Uint256)
    (pdmnState : CDeterministicMNState) : Except ListError (CDeterministicMNList H) := do
  let oldDmn ← ofOption .cantFind (l.getMN proTxHash)
  l.updateMNState hash oldDmn pdmnState

/-- `UpdateMN(oldDmn, stateDiff)`. -/
def updateMNDiff (l : CDeterministicMNList H) (oldDmn : CDeterministicMN)
    (stateDiff : CDeterministicMNStateDiff) : Except ListError (CDeterministicMNList H) :=
  l.updateMNState hash oldDmn (stateDiff.applyToState oldDmn.pdmnState)

def removeMN (l : CDeterministicMNList H) (proTxHash : Uint256) :
    Except ListError (CDeterministicMNList H) := do
  let dmn ← ofOption .cantFind (l.getMN proTxHash)
  let map ← deleteProperties hash dmn l.mnUniquePropertyMap
  .ok { l with
    mnMap := l.mnMap.erase proTxHash
    mnInternalIdMap := l.mnInternalIdMap.erase dmn.internalId
    mnUniquePropertyMap := map }

/-! ## Differences of lists -/

/-- One turn of the first loop of `ApplyDiff`. -/
def applyRemoved (l : CDeterministicMNList H) (id : Nat) :
    Except ListError (CDeterministicMNList H) := do
  let dmn ← ofOption .cantFindRemoved (l.getMNByInternalId id)
  l.removeMN hash dmn.proTxHash

/-- One turn of the last loop of `ApplyDiff`. -/
def applyUpdated (l : CDeterministicMNList H) (p : Sigma fun _ : Nat => CDeterministicMNStateDiff) :
    Except ListError (CDeterministicMNList H) := do
  let dmn ← ofOption .cantFindUpdated (l.getMNByInternalId p.1)
  l.updateMNDiff hash dmn p.2

/-- `ApplyDiff`, for the block with this hash and height. -/
def applyDiff (blockHash : Uint256) (nHeight : Int)
    (diff : CDeterministicMNListDiff) (l : CDeterministicMNList H) :
    Except ListError (CDeterministicMNList H) := do
  let l := { l with blockHash := blockHash, nHeight := nHeight }
  let l ← diff.removedMns.foldlM (applyRemoved hash) l
  let l ← diff.addedMNs.foldlM (fun l dmn => l.addMN hash dmn true) l
  diff.updatedMNs.entries.foldlM (applyUpdated hash) l

/-- `std::set::emplace`. -/
def emplaceId (id : Nat) (ids : List Nat) : List Nat :=
  if id ∈ ids then ids else ids.orderedInsert (· ≤ ·) id

/-- The loop of `BuildDiff` that collects the removed masternodes. It stops
when the sizes fit, where `size` counts the masternodes before and those that
were added. -/
def collectRemoved (toList : CDeterministicMNList H) (size : Nat) :
    List CDeterministicMN → List Nat → List Nat
  | [], removed => removed
  | dmn :: dmns, removed =>
    if (toList.getMN dmn.proTxHash).isSome then collectRemoved toList size dmns removed
    else if size - (emplaceId dmn.internalId removed).length = toList.mnMap.entries.length then
      emplaceId dmn.internalId removed
    else collectRemoved toList size dmns (emplaceId dmn.internalId removed)

/-- The masternodes of `toList` that are new. -/
def newMNs (l toList : CDeterministicMNList H) : List CDeterministicMN :=
  toList.mns.filter fun dmn => (l.getMN dmn.proTxHash).isNone

/-- The changed states of the masternodes of `toList` that are not new. -/
def changedMNs (l toList : CDeterministicMNList H) : List (Nat × CDeterministicMNStateDiff) :=
  toList.mns.filterMap fun dmn => do
    let fromDmn ← l.getMN dmn.proTxHash
    let stateDiff := CDeterministicMNStateDiff.diff fromDmn.pdmnState dmn.pdmnState
    if stateDiff = .empty then none else some (dmn.internalId, stateDiff)

def buildDiff (l toList : CDeterministicMNList H) : CDeterministicMNListDiff where
  addedMNs := (l.newMNs toList).insertionSort fun a b => a.internalId ≤ b.internalId
  updatedMNs := KeyedMap.ofList (l.changedMNs toList)
  removedMns :=
    if l.mnMap.entries.length + (l.newMNs toList).length
        ≠ toList.mnMap.entries.length then
      collectRemoved toList (l.mnMap.entries.length + (l.newMNs toList).length) l.mns []
    else []

end CDeterministicMNList

end KorshCore
