import KorshCore.Evo.ProviderTx

/-!
# The list after a block

`RebuildListFromBlock` of `evo/specialtxman.cpp`: from the masternode list of
the previous block and the transactions of a block it computes the next list.
-/

namespace KorshCore

open Except

inductive RebuildError where
  /-- `state.Invalid(…)`. -/
  | reject (why : ProTxReject)
  | throws (e : ListError)
  /-- The list before is not that of the previous block. -/
  | assertion
  deriving DecidableEq, Repr

/-- `uint256::operator<`: the bytes are compared as they are stored, the least
significant one first. -/
def uint256Less (a b : Uint256) : Bool :=
  let bytes := fun v : Uint256 =>
    (List.range 32).map fun i => (v.extractLsb' (8 * i) 8).toNat
  decide (bytes a < bytes b)

def CDeterministicMNState.ofProRegTx (ptx : CProRegTx) : CDeterministicMNState where
  nVersion := ptx.nVersion
  nRegisteredHeight := -1
  nLastPaidHeight := 0
  nConsecutivePayments := 0
  nPoSePenalty := 0
  nPoSeRevivedHeight := -1
  nPoSeBanHeight := -1
  nRevocationReason := 0
  confirmedHash := 0
  confirmedHashWithProRegTxHash := 0
  keyIDOwner := ptx.keyIDOwner
  pubKeyOperator := ptx.pubKeyOperator
  keyIDVoting := ptx.keyIDVoting
  netInfo := ptx.netInfo
  scriptPayout := ptx.scriptPayout
  scriptOperatorPayout := []
  platformNodeID := ptx.platformNodeID
  platformP2PPort := ptx.platformP2PPort
  platformHTTPPort := ptx.platformHTTPPort

/-! ## The payee -/

def compareByLastPaidHeight (dmn : CDeterministicMN) : Int :=
  let state := dmn.pdmnState
  if state.nPoSeRevivedHeight ≠ -1 ∧ state.nLastPaidHeight < state.nPoSeRevivedHeight then
    state.nPoSeRevivedHeight
  else if state.nLastPaidHeight = 0 then state.nRegisteredHeight
  else state.nLastPaidHeight

def compareByLastPaid (a b : CDeterministicMN) : Bool :=
  if compareByLastPaidHeight a = compareByLastPaidHeight b then uint256Less a.proTxHash b.proTxHash
  else compareByLastPaidHeight a < compareByLastPaidHeight b

namespace CDeterministicMNList

variable {H : Type}

/-- `ForEachMN(onlyValid=true)`. -/
def validMNs (l : CDeterministicMNList H) : List CDeterministicMN :=
  l.mns.filter fun dmn => !dmn.pdmnState.isBanned

/-- The masternode that is paid several times in a row, if it is not yet
done: the last one that the loop finds. -/
def consecutivePayee (l : CDeterministicMNList H) : Option CDeterministicMN :=
  (l.validMNs.filter fun dmn =>
    dmn.pdmnState.nLastPaidHeight == l.nHeight && dmn.nType == .evo &&
      dmn.pdmnState.nConsecutivePayments < (MnType.evo.votingWeight : Int)).getLast?

def getMNPayee (ctx : BlockContext) (l : CDeterministicMNList H) : Option CDeterministicMN :=
  let again := if ctx.isV19Active && !ctx.isMNRewardReallocation then l.consecutivePayee else none
  match again with
  | some dmn => some dmn
  | none => l.validMNs.foldl (fun best dmn =>
      match best with
      | none => some dmn
      | some b => if compareByLastPaid dmn b then some dmn else some b) none

def getAllMNsCount (l : CDeterministicMNList H) : Nat := l.mnMap.entries.length

def calcMaxPoSePenalty (l : CDeterministicMNList H) : Int :=
  max 100 l.getAllMNsCount

def calcPenalty (l : CDeterministicMNList H) (percent : Int) : Int :=
  l.calcMaxPoSePenalty * percent / 100

variable [DecidableEq H] (hash : UniqueProperty → H)

def getMNByCollateral (l : CDeterministicMNList H) (outpoint : COutPoint) :
    Option CDeterministicMN := l.getUniquePropertyMN hash (.outpoint outpoint)

/-! ## Penalties -/

/-- The state that `PoSePunish` writes. -/
def punishedState (l : CDeterministicMNList H) (penalty : Int)
    (state : CDeterministicMNState) : CDeterministicMNState :=
  let punished := { state with
    nPoSePenalty := min l.calcMaxPoSePenalty (state.nPoSePenalty + penalty) }
  if !state.isBanned && l.calcMaxPoSePenalty ≤ punished.nPoSePenalty then
    punished.banIfNotBanned l.nHeight
  else punished

def poSePunish (l : CDeterministicMNList H) (proTxHash : Uint256)
    (penalty : Int) : Except ListError (CDeterministicMNList H) := do
  let dmn ← ofOption .cantFind (l.getMN proTxHash)
  l.updateMN hash proTxHash (l.punishedState penalty dmn.pdmnState)

def poSeDecrease (l : CDeterministicMNList H) (dmn : CDeterministicMN) :
    Except ListError (CDeterministicMNList H) :=
  l.updateMNState hash dmn { dmn.pdmnState with nPoSePenalty := dmn.pdmnState.nPoSePenalty - 1 }

def decreaseScores (l : CDeterministicMNList H) : Except ListError (CDeterministicMNList H) :=
  (l.validMNs.filter fun dmn => 0 < dmn.pdmnState.nPoSePenalty).foldlM (poSeDecrease hash) l

/-- `HandleQuorumCommitment`, for one member. -/
def punishMember (l : CDeterministicMNList H) (member : Uint256 × Bool) :
    Except ListError (CDeterministicMNList H) :=
  if (l.getMN member.1).isNone || member.2 then .ok l
  else l.poSePunish hash member.1 (l.calcPenalty 66)

end CDeterministicMNList

/-! ## Stages -/

section Stages

variable {H : Type} [DecidableEq H] (hash : UniqueProperty → H)
  (env : ProTxEnv) (ctx : BlockContext)

def throwing {α : Type} (x : Except ListError α) : Except RebuildError α :=
  x.mapError .throws

def rejecting {α : Type} (x : Except ProTxReject α) : Except RebuildError α :=
  x.mapError .reject

def BlockContext.nHeight (ctx : BlockContext) : Int := ctx.prevHeight + 1

def confirmMN (l : CDeterministicMNList H) (dmn : CDeterministicMN) :
    Except ListError (CDeterministicMNList H) :=
  if dmn.pdmnState.confirmedHash ≠ 0 then .ok l
  else if env.nMasternodeMinimumConfirmations
      ≤ ctx.prevHeight - dmn.pdmnState.nRegisteredHeight then
    l.updateMN hash dmn.proTxHash (dmn.pdmnState.updateConfirmedHash env.sha256
      dmn.proTxHash ctx.prevHash)
  else .ok l

def registeredMN (internalId : Nat) (tx : CTransaction) (ptx : CProRegTx) : CDeterministicMN where
  internalId := internalId
  proTxHash := env.getHash tx
  collateralOutpoint := collateralOf env tx ptx
  nOperatorReward := ptx.nOperatorReward
  nType := ptx.nType
  pdmnState :=
    let state := { CDeterministicMNState.ofProRegTx ptx with
      nRegisteredHeight := ctx.nHeight }
    -- without an address it starts banned
    if ptx.netInfo.isEmpty then state.banIfNotBanned ctx.nHeight else state

def removeReplaced (l : CDeterministicMNList H) (collateral : COutPoint) :
    Except ListError (CDeterministicMNList H) :=
  match l.getMNByCollateral hash collateral with
  | none => .ok l
  | some dmn => l.removeMN hash dmn.proTxHash

/-- The branch of `TRANSACTION_PROVIDER_REGISTER`. -/
def applyProRegTx (l : CDeterministicMNList H) (tx : CTransaction) :
    Except RebuildError (CDeterministicMNList H) := do
  let ptx ← rejecting (ofOption .payload (env.proRegTx tx))
  let collateral := collateralOf env tx ptx
  -- the coins are only read for the tip
  rejecting (require .collateral (!ctx.viewHasBestBlock ||
    ptx.collateralOutpoint.hash == 0 ||
    (ctx.getCoin collateral).any fun coin =>
      !coin.isSpent && coin.out.nValue == ptx.nType.collatAmount))
  let dmn := registeredMN env ctx l.nTotalRegisteredCount tx ptx
  let l ← throwing (removeReplaced hash l collateral)
  rejecting (checkEntryOwners hash l (fun _ => false) ptx.netInfo)
  rejecting (require .dupKey
    (!(l.hasUniqueProperty hash (.id160 ptx.keyIDOwner) ||
      l.hasUniqueProperty hash (.operatorKey ptx.pubKeyOperator))))
  throwing (l.addMN hash dmn true)

def servState (ptx : CProUpServTx) (state : CDeterministicMNState) : CDeterministicMNState :=
  let state := if ctx.isV24Active then { state with nVersion := ptx.nVersion }
    else state
  let state := { state with
    netInfo := ptx.netInfo
    scriptOperatorPayout := ptx.scriptOperatorPayout }
  let state := if ptx.nType = .evo then
      let state := { state with platformNodeID := ptx.platformNodeID }
      if ptx.nVersion < ProTxVersion.extAddr then { state with
          platformP2PPort := ptx.platformP2PPort
          platformHTTPPort := ptx.platformHTTPPort }
      else state
    else state
  -- only a masternode with all keys is revived
  if state.isBanned && state.pubKeyOperator.isSome && state.keyIDVoting != 0 &&
      state.keyIDOwner != 0 then
    state.revive ctx.nHeight
  else state

/-- The branch of `TRANSACTION_PROVIDER_UPDATE_SERVICE`. -/
def applyProUpServTx (l : CDeterministicMNList H) (tx : CTransaction) :
    Except RebuildError (CDeterministicMNList H) := do
  let ptx ← rejecting (ofOption .payload (env.proUpServTx tx))
  rejecting (checkEntryOwners hash l (fun dmn => dmn.proTxHash == ptx.proTxHash) ptx.netInfo)
  let dmn ← rejecting (ofOption .hash (l.getMN ptx.proTxHash))
  rejecting (require .typeMismatch (ptx.nType == dmn.nType))
  rejecting (require .type ptx.nType.isValid)
  throwing (l.updateMN hash ptx.proTxHash (servState ctx ptx dmn.pdmnState))

def regState (ptx : CProUpRegTx) (state : CDeterministicMNState) : CDeterministicMNState :=
  let state := if sameKey state.pubKeyOperator ptx.pubKeyOperator then state
    else
      let state := state.resetOperatorFields.banIfNotBanned ctx.nHeight
      let nVersion := if ProTxVersion.basicBLS < state.nVersion then
        state.nVersion else ptx.nVersion
      { state with
        nVersion := nVersion
        netInfo := NetInfo.makeNetInfo nVersion
        pubKeyOperator := ptx.pubKeyOperator }
  { state with
    keyIDVoting := ptx.keyIDVoting
    scriptPayout := ptx.scriptPayout }

/-- The branch of `TRANSACTION_PROVIDER_UPDATE_REGISTRAR`. -/
def applyProUpRegTx (l : CDeterministicMNList H) (tx : CTransaction) :
    Except RebuildError (CDeterministicMNList H) := do
  let ptx ← rejecting (ofOption .payload (env.proUpRegTx tx))
  let dmn ← rejecting (ofOption .hash (l.getMN ptx.proTxHash))
  throwing (l.updateMN hash ptx.proTxHash (regState ctx ptx dmn.pdmnState))

def revState (ptx : CProUpRevTx) (state : CDeterministicMNState) : CDeterministicMNState :=
  { state.resetOperatorFields.banIfNotBanned ctx.nHeight with
    nRevocationReason := ptx.nReason }

/-- The branch of `TRANSACTION_PROVIDER_UPDATE_REVOKE`. -/
def applyProUpRevTx (l : CDeterministicMNList H) (tx : CTransaction) :
    Except RebuildError (CDeterministicMNList H) := do
  let ptx ← rejecting (ofOption .payload (env.proUpRevTx tx))
  let dmn ← rejecting (ofOption .hash (l.getMN ptx.proTxHash))
  throwing (l.updateMN hash ptx.proTxHash (revState ctx ptx dmn.pdmnState))

/-- The branch of `TRANSACTION_QUORUM_COMMITMENT`. -/
def applyCommitment (l : CDeterministicMNList H) (tx : CTransaction) :
    Except RebuildError (CDeterministicMNList H) := do
  let members ← rejecting (ctx.quorumMembers tx)
  throwing (members.foldlM (fun l member => l.punishMember hash member) l)

def applyTx (l : CDeterministicMNList H) (tx : CTransaction) :
    Except RebuildError (CDeterministicMNList H) :=
  if !tx.isSpecialTxVersion then .ok l
  else if tx.nType = transactionProviderRegister then applyProRegTx hash env ctx l tx
  else if tx.nType = transactionProviderUpdateService then applyProUpServTx hash env ctx l tx
  else if tx.nType = transactionProviderUpdateRegistrar then applyProUpRegTx hash env ctx l tx
  else if tx.nType = transactionProviderUpdateRevoke then applyProUpRevTx hash env ctx l tx
  else if tx.nType = transactionQuorumCommitment then applyCommitment hash ctx l tx
  else .ok l

def spendCollateral (l : CDeterministicMNList H) (vin : CTxIn) :
    Except ListError (CDeterministicMNList H) :=
  match l.getMNByCollateral hash vin.prevout with
  | none => .ok l
  | some dmn =>
    if dmn.collateralOutpoint = vin.prevout then l.removeMN hash dmn.proTxHash
    else .ok l

def recordPayee (payee : Option CDeterministicMN) (l : CDeterministicMNList H) :
    Except ListError (CDeterministicMNList H) :=
  match payee with
  | none => .ok l
  | some payee =>
    match l.getMN payee.proTxHash with
    | none => .ok l
    | some dmn =>
      let state := { dmn.pdmnState with nLastPaidHeight := ctx.nHeight }
      l.updateMN hash payee.proTxHash
        (if dmn.nType = .evo ∧ ctx.isMNRewardReallocation = false then
          { state with nConsecutivePayments := state.nConsecutivePayments + 1 }
        else state)

def resetPayments (payee : Option CDeterministicMN) (l : CDeterministicMNList H)
    (dmn : CDeterministicMN) : Except ListError (CDeterministicMNList H) :=
  if dmn.nType ≠ .evo then .ok l
  else if (payee.map CDeterministicMN.proTxHash) = some dmn.proTxHash ∧
      ctx.isMNRewardReallocation = false then .ok l
  else if dmn.pdmnState.nConsecutivePayments = 0 then .ok l
  else l.updateMN hash dmn.proTxHash { dmn.pdmnState with nConsecutivePayments := 0 }

def fitsPrevious (prevList : CDeterministicMNList H) : Bool :=
  (prevList.blockHash == 0 && prevList.nHeight == -1 &&
    prevList.nTotalRegisteredCount == 0 && prevList.mnMap.entries.isEmpty &&
    prevList.mnInternalIdMap.entries.isEmpty &&
    prevList.mnUniquePropertyMap.entries.isEmpty) ||
  prevList.blockHash == ctx.prevHash

def rebuildListFromBlock (block : CBlock) (prevList : CDeterministicMNList H) :
    Except RebuildError (CDeterministicMNList H) :=
  if !fitsPrevious ctx prevList then .error .assertion
  else do
    let newList := { prevList with blockHash := 0, nHeight := ctx.nHeight }
    let payee := prevList.getMNPayee ctx
    let newList ← throwing (prevList.mns.foldlM (confirmMN hash env ctx) newList)
    let newList ← throwing (newList.decreaseScores hash)
    let newList ← block.withoutCoinbase.foldlM (applyTx hash env ctx) newList
    let newList ← throwing
      ((block.withoutCoinbase.flatMap CTransaction.vin).foldlM (spendCollateral hash) newList)
    let newList ← throwing (recordPayee hash ctx payee newList)
    throwing (newList.mns.foldlM (resetPayments hash ctx payee) newList)

end Stages

end KorshCore
