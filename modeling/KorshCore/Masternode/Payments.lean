import KorshCore.Governance.Superblock
import KorshCore.Lib.Except
import KorshCore.Lib.Matching
import KorshCore.Primitives.Transaction

/-!
# Masternode and superblock payments

`masternode/payments.cpp` with `CSuperblock::IsValid` and the choice of the
superblock in `governance/governance.cpp`: what a coinbase has to pay, and how
`IsBlockValueValid` and `IsBlockPayeeValid` check it.

The masternode list, the votes of the triggers, the deployments and the state
of the node are fields of a `PaymentsState`.
-/

namespace KorshCore

open Superblock

/-! ## Parameters and state -/

structure PaymentParams extends Params where
  nBudgetPaymentsCycleBlocks : Nat
  nBudgetPaymentsWindowBlocks : Nat
  dip0003EnforcementHeight : Nat
  nMasternodePaymentsIncreaseBlock : Nat
  nMasternodePaymentsIncreasePeriod : Nat
  brrHeight : Nat
  nBRRFixHeight : Nat
  nKSHv030Height : Nat
  nGovernanceMinQuorum : Nat

structure MasternodePayee where
  nOperatorReward : Int
  scriptPayout : List UInt8
  scriptOperatorPayout : List UInt8
  deriving DecidableEq, Repr

structure CGovernancePayment where
  script : List UInt8
  nAmount : Int
  deriving DecidableEq, Repr

def CGovernancePayment.toTxOut (payment : CGovernancePayment) : CTxOut :=
  ⟨payment.nAmount, payment.script⟩

/-- An active trigger: a `CSuperblock` with the votes on its governance
object, as `GetAbsoluteYesCount` counts them by the list at the tip. -/
structure Trigger where
  nBlockHeight : Nat
  vecPayments : List CGovernancePayment
  absoluteYesCount : Int
  fCachedFunding : Bool
  deriving DecidableEq, Repr

/-- `CGovernanceObject::UpdateSentinelVariables`. Without a valid masternode the
flag stays as it was. -/
def Trigger.updateSentinelVariables (params : PaymentParams) (nWeightedMnCount : Nat)
    (trigger : Trigger) : Trigger :=
  if nWeightedMnCount = 0 then trigger
  else
    let nAbsVoteReq : Nat := max params.nGovernanceMinQuorum (nWeightedMnCount / 10)
    { trigger with fCachedFunding := nAbsVoteReq ≤ trigger.absoluteYesCount }

structure PaymentsState where
  params : PaymentParams
  difficultyBase : Nat → Nat → Int
  nBlockHeight : Nat
  fV20Active : Bool
  fMnRrActive : Bool
  allMNsCount : Nat
  /-- `GetValidWeightedMNsCount` of the list at the tip. -/
  nWeightedMnCount : Nat
  dmnPayee : Option MasternodePayee
  fSynced : Bool
  fGovernanceValid : Bool
  fSuperblocksEnabled : Bool
  triggers : List Trigger

/-- How a check ends without an answer, and why a coinbase value is
rejected. -/
inductive PaymentsError where
  | valueOutOfRange
  | assertionFailed
  | oldBudgetsNotActivated
  | oldBudgetsNoLongerActive
  | oldBudgetsDisabled
  | notInOldBudgetWindow
  | onlyRegularBlocksAllowed
  | exceededSuperblockMaxValue
  | superblocksDisabled
  | noTriggeredSuperblock
  | invalidSuperblock
  deriving DecidableEq, Repr

/-! ## The masternode share -/

/-- `vecPeriods` of `GetMasternodePayment`. -/
def reallocPeriods : List Int :=
  [513, 526, 533, 540, 546, 552, 557, 562, 567, 572, 577, 582, 585, 588, 591, 594, 597, 599, 600]

/-- The schedule of `GetMasternodePayment` before the reallocation. -/
def legacyMasternodePayment (params : PaymentParams) (nHeight : Nat) (blockValue : Int) : Int :=
  let nMNPIBlock := params.nMasternodePaymentsIncreaseBlock
  let nMNPIPeriod := params.nMasternodePaymentsIncreasePeriod
  let raise (periods : Nat) (part : Int) : Int :=
    if nMNPIBlock + nMNPIPeriod * periods < nHeight then blockValue / part else 0
  blockValue / 5 + raise 0 20 + raise 1 20 + raise 2 20 + raise 3 40 + raise 4 40
    + raise 5 40 + raise 6 40 + raise 7 40 + raise 9 40

def getMasternodePayment (params : PaymentParams) (nHeight : Nat)
    (blockValue : Int) (fV20Active : Bool) : Int :=
  if params.nKSHv030Height ≤ nHeight then blockValue * 4 / 5
  else if params.nKSHv014Height ≤ nHeight then blockValue * 3 / 10
  else
    let ret := legacyMasternodePayment params nHeight blockValue
    if params.nBRRFixHeight ≤ nHeight then ret
    else if nHeight < params.brrHeight then ret
    else
      let nReallocStart := params.brrHeight
        - params.brrHeight % params.nSuperblockCycle + params.nSuperblockCycle
      if nHeight < nReallocStart then ret
      else if fV20Active then blockValue * 3 / 4
      else
        let nReallocCycle := params.nSuperblockCycle * 3
        let nCurrentPeriod :=
          min ((nHeight - nReallocStart) / nReallocCycle) (reallocPeriods.length - 1)
        blockValue * reallocPeriods.getD nCurrentPeriod 0 / 1000

def platformShare (reward : Int) : Except PaymentsError Int :=
  let platformReward := reward * 375 / 1000
  if moneyRange platformReward then .ok platformReward
  else .error .assertionFailed

/-- `CTransaction::GetValueOut`, which throws out of range. -/
def valueOut (tx : CTransaction) : Except PaymentsError Int :=
  match tx.getValueOut with
  | some nValueOut => .ok nValueOut
  | none => .error .valueOutOfRange

namespace PaymentsState

variable (st : PaymentsState)

/-- The part of the reward that goes to the credit pool, as a payment, and
what is left for the masternode. -/
def platformPayment (blockSubsidy feeReward : Int) : Except PaymentsError (List CTxOut × Int) :=
  let masternodeReward := getMasternodePayment st.params st.nBlockHeight
    (blockSubsidy + feeReward) st.fV20Active
  if st.fV20Active && st.fMnRrActive then do
    let platformReward ← platformShare (getMasternodePayment st.params
      st.nBlockHeight blockSubsidy st.fV20Active)
    if moneyRange (masternodeReward - platformReward) then
      .ok ([⟨platformReward, [opReturn]⟩], masternodeReward - platformReward)
    else .error .assertionFailed
  else .ok ([], masternodeReward)

def payeePayments (dmnPayee : MasternodePayee) (masternodeReward : Int) : List CTxOut :=
  let operatorReward :=
    if dmnPayee.nOperatorReward ≠ 0 ∧ dmnPayee.scriptOperatorPayout ≠ [] then
      masternodeReward * dmnPayee.nOperatorReward / 10000
    else 0
  (if 0 < masternodeReward - operatorReward then
    [⟨masternodeReward - operatorReward, dmnPayee.scriptPayout⟩] else [])
    ++ if 0 < operatorReward then [⟨operatorReward, dmnPayee.scriptOperatorPayout⟩] else []

/-- `CMNPaymentsProcessor::GetBlockTxOuts`: what it returns, and the payments
that it leaves behind. -/
def getBlockTxOuts (blockSubsidy feeReward : Int) : Except PaymentsError (Bool × List CTxOut) := do
  let (platform, masternodeReward) ← st.platformPayment blockSubsidy feeReward
  if st.allMNsCount = 0 then .ok (true, platform)
  else
    match st.dmnPayee with
    | none => .ok (false, platform)
    | some dmnPayee =>
      .ok (true, platform ++ payeePayments dmnPayee masternodeReward)

def isTransactionValid (txNew : CTransaction) (blockSubsidy feeReward : Int) :
    Except PaymentsError Bool :=
  if st.nBlockHeight < st.params.dip0003EnforcementHeight then .ok true
  else do
    let (found, voutMasternodePayments) ← st.getBlockTxOuts blockSubsidy feeReward
    if found then
      .ok (voutMasternodePayments.all fun txout => txNew.vout.any (txout == ·))
    else .ok true

/-! ## Superblocks -/

/-- `CSuperblock::GetPaymentsLimit` at the height of the block. -/
def paymentsLimit : Int :=
  getPaymentsLimit st.difficultyBase st.params.toParams st.nBlockHeight

def isSuperblockTriggered : Bool :=
  isValidBlockHeight st.params.toParams st.nBlockHeight && st.triggers.any fun trigger =>
      st.nBlockHeight == trigger.nBlockHeight
        && (trigger.updateSentinelVariables st.params st.nWeightedMnCount).fCachedFunding

/-- `CGovernanceManager::GetBestSuperblockInternal`: the trigger of the height
with the most votes, the first one among equals. -/
def getBestSuperblock : Option Trigger :=
  if isValidBlockHeight st.params.toParams st.nBlockHeight then
    (st.triggers.foldl (fun (best : Int × Option Trigger) trigger =>
      if st.nBlockHeight == trigger.nBlockHeight
          && best.1 < trigger.absoluteYesCount then
        (trigger.absoluteYesCount, some trigger)
      else best) (0, none)).2
  else none

/-- `CSuperblock::GetPaymentsTotalAmount`. -/
def paymentsTotalAmount (superblock : Trigger) : Int :=
  (superblock.vecPayments.map (·.nAmount)).sum

/-- `CSuperblock::IsValid`. The loop over the payments keeps a cursor into
the outputs, which stays on the output it has just matched. -/
def superblockIsValid (superblock : Trigger) (txNew : CTransaction)
    (blockReward : Int) : Except PaymentsError Bool :=
  if isValidBlockHeight st.params.toParams st.nBlockHeight = false then
    .ok false
  else if txNew.vout.length < superblock.vecPayments.length then .ok false
  else if st.paymentsLimit < paymentsTotalAmount superblock then .ok false
  else do
    let nBlockValue ← valueOut txNew
    if blockReward + paymentsTotalAmount superblock < nBlockValue then .ok false
    else .ok (Matching.scan (superblock.vecPayments.map CGovernancePayment.toTxOut) txNew.vout)

def isValidSuperblock (txNew : CTransaction) (blockReward : Int) : Except PaymentsError Bool :=
  match st.getBestSuperblock with
  | some superblock => st.superblockIsValid superblock txNew blockReward
  | none => .ok false

def require (condition : Bool) (reason : PaymentsError) : Except PaymentsError Unit :=
  if condition then .ok () else .error reason

def isOldBudgetBlockValueValid (coinbase : CTransaction) (blockReward : Int) :
    Except PaymentsError Unit := do
  let nValueOut ← valueOut coinbase
  if st.nBlockHeight < st.params.nBudgetPaymentsStartBlock then
    .error .oldBudgetsNotActivated
  else if st.params.nSuperblockStartBlock ≤ st.nBlockHeight then
    .error .oldBudgetsNoLongerActive
  else if st.nBlockHeight % st.params.nBudgetPaymentsCycleBlocks
      < st.params.nBudgetPaymentsWindowBlocks then
    if st.fSynced then require (nValueOut ≤ blockReward) .oldBudgetsDisabled
    else .ok ()
  else require (nValueOut ≤ blockReward) .notInOldBudgetWindow

def isBlockValueValid (coinbase : CTransaction) (blockReward : Int)
    (checkSuperblock : Bool) : Except PaymentsError Unit := do
  let nValueOut ← valueOut coinbase
  if st.nBlockHeight < st.params.nBudgetPaymentsStartBlock then
    require (nValueOut ≤ blockReward) .oldBudgetsNotActivated
  else if st.nBlockHeight < st.params.nSuperblockStartBlock then
    st.isOldBudgetBlockValueValid coinbase blockReward
  else if isValidBlockHeight st.params.toParams st.nBlockHeight = false then
    require (nValueOut ≤ blockReward) .onlyRegularBlocksAllowed
  else if blockReward + st.paymentsLimit < nValueOut then
    .error .exceededSuperblockMaxValue
  else if !st.fSynced || !st.fGovernanceValid then .ok ()
  else if !st.fSuperblocksEnabled then require (nValueOut ≤ blockReward) .superblocksDisabled
  else if !checkSuperblock then .ok ()
  else if !st.isSuperblockTriggered then require (nValueOut ≤ blockReward) .noTriggeredSuperblock
  else do
    let valid ← st.isValidSuperblock coinbase blockReward
    require valid .invalidSuperblock

def isBlockPayeeValid (txNew : CTransaction) (blockSubsidy feeReward : Int)
    (checkSuperblock : Bool) : Except PaymentsError Bool := do
  let paid ← st.isTransactionValid txNew blockSubsidy feeReward
  if !paid then .ok false
  else if !st.fSynced || !st.fGovernanceValid then .ok true
  else if st.nBlockHeight < st.params.nSuperblockStartBlock then .ok true
  else if st.fSuperblocksEnabled then
    if !checkSuperblock then .ok true
    else if st.isSuperblockTriggered then st.isValidSuperblock txNew (blockSubsidy + feeReward)
    else .ok true
  else .ok true

end PaymentsState

end KorshCore
