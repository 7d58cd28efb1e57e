import KorshCore.Evo.NetInfo

/-!
# The state of a masternode

`CDeterministicMNState` of `evo/dmnstate.h` and the difference between two
states.

An operator key is a BLS public key with the scheme in which it was written.
Comparing two keys (`sameKey`) does not compare the schemes, so a difference
leaves the operator key out when only its scheme changed.

The source marks the members of a difference by bits; here a member that is not
part of it is `none`.
-/

namespace KorshCore

/-- `uint160`, also `CKeyID`. -/
abbrev Uint160 := BitVec 160

/-! ## Versions, types and keys -/

namespace ProTxVersion

def legacyBLS : Nat := 1
def basicBLS : Nat := 2
def extAddr : Nat := 3

def getMax (isBasicSchemeActive isExtendedAddr : Bool) : Nat :=
  if isBasicSchemeActive then
    if isExtendedAddr then extAddr else basicBLS
  else legacyBLS

end ProTxVersion

/-- `MnType`, with the codes that no type has. -/
inductive MnType where
  | regular
  | evo
  | invalid (code : Nat)
  deriving DecidableEq, Repr

namespace MnType

def votingWeight : MnType → Nat
  | regular => 1
  | evo => 5
  | invalid _ => 0

def collatAmount : MnType → Int
  | regular => 1500 * coin
  | evo => 7500 * coin
  | invalid _ => maxMoney

def isValid : MnType → Bool
  | invalid _ => false
  | _ => true

end MnType

abbrev CBLSPublicKey := List UInt8

/-- `CBLSLazyPublicKey` that is not the default one: a key and the scheme in
which its bytes are kept. -/
structure CBLSLazyPublicKey where
  obj : CBLSPublicKey
  bufLegacyScheme : Bool
  deriving DecidableEq, Repr

/-- `CBLSLazyWrapper::operator==`. The default key is `none`. -/
def sameKey (a b : Option CBLSLazyPublicKey) : Bool :=
  a.map CBLSLazyPublicKey.obj == b.map CBLSLazyPublicKey.obj

theorem sameKey_iff {a b : Option CBLSLazyPublicKey} :
    sameKey a b = true ↔ a.map CBLSLazyPublicKey.obj = b.map CBLSLazyPublicKey.obj := by
  rw [sameKey, beq_iff_eq]

/-! ## States -/

structure CDeterministicMNState where
  nVersion : Nat
  nRegisteredHeight : Int
  nLastPaidHeight : Int
  nConsecutivePayments : Int
  nPoSePenalty : Int
  nPoSeRevivedHeight : Int
  nPoSeBanHeight : Int
  nRevocationReason : Nat
  confirmedHash : Uint256
  confirmedHashWithProRegTxHash : Uint256
  keyIDOwner : Uint160
  pubKeyOperator : Option CBLSLazyPublicKey
  keyIDVoting : Uint160
  netInfo : NetInfo
  scriptPayout : List UInt8
  scriptOperatorPayout : List UInt8
  platformNodeID : Uint160
  platformP2PPort : Nat
  platformHTTPPort : Nat
  deriving DecidableEq, Repr

namespace CDeterministicMNState

/-- `ResetOperatorFields`. The platform ports stay. -/
def resetOperatorFields (state : CDeterministicMNState) : CDeterministicMNState :=
  { state with
    nVersion := ProTxVersion.legacyBLS
    pubKeyOperator := none
    netInfo := NetInfo.makeNetInfo ProTxVersion.legacyBLS
    scriptOperatorPayout := []
    nRevocationReason := 0
    platformNodeID := 0 }

def isBanned (state : CDeterministicMNState) : Bool :=
  state.nPoSeBanHeight != -1

def banIfNotBanned (state : CDeterministicMNState) (height : Int) : CDeterministicMNState :=
  if state.isBanned then state else { state with nPoSeBanHeight := height }

def revive (state : CDeterministicMNState) (nRevivedHeight : Int) : CDeterministicMNState :=
  { state with
    nPoSePenalty := 0
    nPoSeBanHeight := -1
    nPoSeRevivedHeight := nRevivedHeight }

/-- `UpdateConfirmedHash`, with the hash of two hashes as a parameter. -/
def updateConfirmedHash (sha256 : Uint256 → Uint256 → Uint256)
    (state : CDeterministicMNState) (proTxHash confirmedHash : Uint256) : CDeterministicMNState :=
  { state with
    confirmedHash := confirmedHash
    confirmedHashWithProRegTxHash := sha256 proTxHash confirmedHash }

end CDeterministicMNState

/-! ## Differences -/

structure CDeterministicMNStateDiff where
  nVersion : Option Nat
  nRegisteredHeight : Option Int
  nLastPaidHeight : Option Int
  nPoSePenalty : Option Int
  nPoSeRevivedHeight : Option Int
  nPoSeBanHeight : Option Int
  nRevocationReason : Option Nat
  confirmedHash : Option Uint256
  confirmedHashWithProRegTxHash : Option Uint256
  keyIDOwner : Option Uint160
  pubKeyOperator : Option (Option CBLSLazyPublicKey)
  keyIDVoting : Option Uint160
  netInfo : Option NetInfo
  scriptPayout : Option (List UInt8)
  scriptOperatorPayout : Option (List UInt8)
  nConsecutivePayments : Option Int
  platformNodeID : Option Uint160
  platformP2PPort : Option Nat
  platformHTTPPort : Option Nat
  deriving DecidableEq, Repr

/-- A member of a difference: the new value if it is another one. -/
def changed {α : Type} [DecidableEq α] (a b : α) : Option α :=
  if a = b then none else some b

theorem getD_changed {α : Type} [DecidableEq α] (a b : α) : (changed a b).getD a = b := by
  unfold changed
  split_ifs with h
  · exact h
  · rfl

namespace CDeterministicMNStateDiff

/-- The operator key of a difference: compared without the scheme. -/
def changedKey (a b : Option CBLSLazyPublicKey) : Option (Option CBLSLazyPublicKey) :=
  if sameKey a b then none else some b

def diff (a b : CDeterministicMNState) : CDeterministicMNStateDiff where
  -- the operator key and the network information need the version
  nVersion :=
    if (changedKey a.pubKeyOperator b.pubKeyOperator).isSome ||
        (changed a.netInfo b.netInfo).isSome then
      some b.nVersion
    else changed a.nVersion b.nVersion
  nRegisteredHeight := changed a.nRegisteredHeight b.nRegisteredHeight
  nLastPaidHeight := changed a.nLastPaidHeight b.nLastPaidHeight
  nPoSePenalty := changed a.nPoSePenalty b.nPoSePenalty
  nPoSeRevivedHeight := changed a.nPoSeRevivedHeight b.nPoSeRevivedHeight
  nPoSeBanHeight := changed a.nPoSeBanHeight b.nPoSeBanHeight
  nRevocationReason := changed a.nRevocationReason b.nRevocationReason
  confirmedHash := changed a.confirmedHash b.confirmedHash
  confirmedHashWithProRegTxHash :=
    changed a.confirmedHashWithProRegTxHash b.confirmedHashWithProRegTxHash
  keyIDOwner := changed a.keyIDOwner b.keyIDOwner
  pubKeyOperator := changedKey a.pubKeyOperator b.pubKeyOperator
  keyIDVoting := changed a.keyIDVoting b.keyIDVoting
  netInfo := changed a.netInfo b.netInfo
  scriptPayout := changed a.scriptPayout b.scriptPayout
  scriptOperatorPayout := changed a.scriptOperatorPayout b.scriptOperatorPayout
  nConsecutivePayments := changed a.nConsecutivePayments b.nConsecutivePayments
  platformNodeID := changed a.platformNodeID b.platformNodeID
  platformP2PPort := changed a.platformP2PPort b.platformP2PPort
  platformHTTPPort := changed a.platformHTTPPort b.platformHTTPPort

/-- The difference that changes nothing: `fields` is zero. -/
def empty : CDeterministicMNStateDiff :=
  ⟨none, none, none, none, none, none, none, none, none, none, none, none,
    none, none, none, none, none, none, none⟩

def applyToState (stateDiff : CDeterministicMNStateDiff)
    (target : CDeterministicMNState) : CDeterministicMNState where
  nVersion := stateDiff.nVersion.getD target.nVersion
  nRegisteredHeight :=
    stateDiff.nRegisteredHeight.getD target.nRegisteredHeight
  nLastPaidHeight := stateDiff.nLastPaidHeight.getD target.nLastPaidHeight
  nConsecutivePayments :=
    stateDiff.nConsecutivePayments.getD target.nConsecutivePayments
  nPoSePenalty := stateDiff.nPoSePenalty.getD target.nPoSePenalty
  nPoSeRevivedHeight :=
    stateDiff.nPoSeRevivedHeight.getD target.nPoSeRevivedHeight
  nPoSeBanHeight := stateDiff.nPoSeBanHeight.getD target.nPoSeBanHeight
  nRevocationReason :=
    stateDiff.nRevocationReason.getD target.nRevocationReason
  confirmedHash := stateDiff.confirmedHash.getD target.confirmedHash
  confirmedHashWithProRegTxHash :=
    stateDiff.confirmedHashWithProRegTxHash.getD target.confirmedHashWithProRegTxHash
  keyIDOwner := stateDiff.keyIDOwner.getD target.keyIDOwner
  pubKeyOperator := stateDiff.pubKeyOperator.getD target.pubKeyOperator
  keyIDVoting := stateDiff.keyIDVoting.getD target.keyIDVoting
  netInfo := stateDiff.netInfo.getD target.netInfo
  scriptPayout := stateDiff.scriptPayout.getD target.scriptPayout
  scriptOperatorPayout :=
    stateDiff.scriptOperatorPayout.getD target.scriptOperatorPayout
  platformNodeID := stateDiff.platformNodeID.getD target.platformNodeID
  platformP2PPort := stateDiff.platformP2PPort.getD target.platformP2PPort
  platformHTTPPort := stateDiff.platformHTTPPort.getD target.platformHTTPPort

def keptKey (a b : Option CBLSLazyPublicKey) : Option CBLSLazyPublicKey :=
  if sameKey a b then a else b

theorem keptKey_eq_right_iff {a b : Option CBLSLazyPublicKey} :
    keptKey a b = b ↔ (sameKey a b = true → a = b) := by
  unfold keptKey
  split_ifs with h <;> simp [h]

theorem getD_changedKey (a b : Option CBLSLazyPublicKey) :
    (changedKey a b).getD a = keptKey a b := by
  unfold changedKey keptKey
  split_ifs <;> rfl

/-- A difference leads from the one state to the other, but for the scheme of
an operator key that is otherwise the same. -/
theorem applyToState_diff (a b : CDeterministicMNState) : (diff a b).applyToState a
      = { b with pubKeyOperator := keptKey a.pubKeyOperator b.pubKeyOperator } := by
  have hversion : (diff a b).nVersion.getD a.nVersion = b.nVersion := by
    unfold diff
    split_ifs
    · rfl
    · exact getD_changed _ _
  unfold applyToState
  rw [hversion]
  simp only [diff, getD_changed, getD_changedKey]

end CDeterministicMNStateDiff

end KorshCore
