import KorshCore.Evo.ProviderTx
import KorshCore.Masternode.Payments
import KorshCore.Util.RangesSet

/-!
# Asset locks and unlocks

The payloads of `evo/assetlocktx.h` and the checks of `evo/assetlocktx.cpp`.
Reading a payload is a parameter (`AssetEnv`), and so are the state of the
quorums and the verification of their signatures (`QuorumView`).
-/

namespace KorshCore

structure CAssetLockPayload where
  nVersion : Nat
  creditOutputs : List CTxOut
  deriving DecidableEq, Repr

structure CAssetUnlockPayload where
  nVersion : Nat
  index : UInt64
  fee : UInt32
  requestedHeight : UInt32
  quorumHash : Uint256
  quorumSig : List UInt8
  deriving DecidableEq, Repr

namespace CAssetUnlockPayload

def maximumWithdrawals : Nat := 32

/-- `getHeightToExpiry`, an `int` from a sum of `uint32_t`. -/
def getHeightToExpiry (payload : CAssetUnlockPayload) : Int :=
  (payload.requestedHeight + 48).toBitVec.toInt

end CAssetUnlockPayload

/-- `CURRENT_VERSION` of both payloads. -/
def assetPayloadVersion : Nat := 1

inductive AssetReject where
  | lockType
  | lockNonEmptyReturn
  | lockOpreturnOutOfRange
  | lockMultipleReturn
  | lockNoReturn
  | lockPayload
  | lockVersion
  | lockEmptyCreditOutputs
  | lockCreditOutOfRange
  | lockPubKeyHash
  | lockCreditAmount
  | unlockType
  | unlockHaveInput
  | unlockTooManyOuts
  | unlockPayload
  | unlockVersion
  | unlockDuplicatedIndex
  | unlockQuorumHash
  | unlockTooOldQuorum
  | unlockTooLate
  | unlockQuorumInternalError
  | unlockNotVerified
  | notAssetLocksAtAll
  | poolUnlockPayload
  | poolUnlockTxoutOutOfRange
  | poolUnlockTooMuch
  | poolUnlockDuplicatedIndex
  | poolLockPayload
  | poolLockInvalid
  /-- No rejection: an assertion of `VerifySig`, which stops the node. -/
  | llmqParamsAssertion
  deriving DecidableEq, Repr

/-- Whether the result of a rejection is `TX_CONSENSUS`; it is
`TX_BAD_SPECIAL` otherwise. -/
def AssetReject.isConsensus : AssetReject → Bool
  | .unlockDuplicatedIndex | .unlockQuorumHash | .unlockTooOldQuorum
  | .unlockTooLate | .unlockQuorumInternalError | .unlockNotVerified
  | .poolUnlockPayload | .poolUnlockTxoutOutOfRange | .poolUnlockTooMuch
  | .poolUnlockDuplicatedIndex | .poolLockPayload | .poolLockInvalid => true
  | _ => false

/-- `GetTxPayload<CAssetLockPayload>(vExtraPayload)`, and so on. -/
structure AssetEnv where
  assetLockPayload : List UInt8 → Option CAssetLockPayload
  assetUnlockPayload : List UInt8 → Option CAssetUnlockPayload

namespace AssetEnv

variable (env : AssetEnv) (tx : CTransaction)

def assetLock : Option CAssetLockPayload :=
  if tx.nType = transactionAssetLock then env.assetLockPayload tx.vExtraPayload
  else none

def assetUnlock : Option CAssetUnlockPayload :=
  if tx.nType = transactionAssetUnlock then env.assetUnlockPayload tx.vExtraPayload
  else none

end AssetEnv

/-- What `CheckAssetUnlockTx` asks about blocks and quorums: whether the platform
quorums of the network have parameters, whether a block is in the block index, whether
a quorum is one of those scanned at the tip, whether it can be loaded, and whether it
signed the transaction. -/
structure QuorumView where
  hasPlatformParams : Bool
  hasBlockIndex : Uint256 → Bool
  scanned : Uint256 → Bool
  hasQuorum : Uint256 → Bool
  verifies : CTransaction → CAssetUnlockPayload → Bool

open Except

section Checks

variable (env : AssetEnv)

def startsWithOpReturn (script : List UInt8) : Bool := script.head? == some opReturn

/-- The loop of `CheckAssetLockTx` over the outputs. -/
def returnAmountStep (returnAmount : Int) (txout : CTxOut) : Except AssetReject Int :=
  if !startsWithOpReturn txout.scriptPubKey then .ok returnAmount
  else if txout.scriptPubKey.length ≠ 2 || txout.scriptPubKey.getD 1 0 ≠ 0 then
    .error .lockNonEmptyReturn
  else if txout.nValue = 0 || !moneyRange txout.nValue then
    .error .lockOpreturnOutOfRange
  else if 0 < returnAmount then .error .lockMultipleReturn
  else .ok txout.nValue

/-- The loop of `CheckAssetLockTx` over the credit outputs. -/
def creditOutputStep (creditOutputsAmount : Int) (out : CTxOut) : Except AssetReject Int :=
  if out.nValue = 0 || !moneyRange out.nValue || !moneyRange (creditOutputsAmount + out.nValue) then
    .error .lockCreditOutOfRange
  else if !isPayToPublicKeyHash out.scriptPubKey then .error .lockPubKeyHash
  else .ok (creditOutputsAmount + out.nValue)

def checkAssetLockTx (tx : CTransaction) : Except AssetReject Unit := do
  require .lockType (tx.nType = transactionAssetLock)
  let returnAmount ← tx.vout.foldlM returnAmountStep 0
  require .lockNoReturn (returnAmount ≠ 0)
  let assetLockTx ← ofOption .lockPayload (env.assetLock tx)
  require .lockVersion (assetLockTx.nVersion ≠ 0 && assetLockTx.nVersion ≤ assetPayloadVersion)
  require .lockEmptyCreditOutputs (!assetLockTx.creditOutputs.isEmpty)
  let creditOutputsAmount ← assetLockTx.creditOutputs.foldlM creditOutputStep 0
  require .lockCreditAmount (creditOutputsAmount = returnAmount)

def verifySig (quorums : QuorumView) (tx : CTransaction)
    (payload : CAssetUnlockPayload) (nHeight : Nat) : Except AssetReject Unit := do
  require .llmqParamsAssertion quorums.hasPlatformParams
  require .unlockTooOldQuorum (quorums.scanned payload.quorumHash)
  require .unlockTooLate (payload.requestedHeight.toNat ≤ nHeight
    && nHeight < payload.getHeightToExpiry)
  require .unlockQuorumInternalError (quorums.hasQuorum payload.quorumHash)
  require .unlockNotVerified (quorums.verifies tx payload)

/-- `CheckAssetUnlockTx`. Outside of blocks there are no known indexes. -/
def checkAssetUnlockTx (quorums : QuorumView) (tx : CTransaction)
    (prevHeight : Nat) (indexes : Option CRangesSet) : Except AssetReject Unit := do
  require .unlockType (tx.nType = transactionAssetUnlock)
  require .unlockHaveInput tx.vin.isEmpty
  require .unlockTooManyOuts (tx.vout.length ≤ CAssetUnlockPayload.maximumWithdrawals)
  let assetUnlockTx ← ofOption .unlockPayload (env.assetUnlock tx)
  require .unlockVersion
    (assetUnlockTx.nVersion ≠ 0 && assetUnlockTx.nVersion ≤ assetPayloadVersion)
  require .unlockDuplicatedIndex (!indexes.any (·.contains assetUnlockTx.index))
  require .unlockQuorumHash (quorums.hasBlockIndex assetUnlockTx.quorumHash)
  verifySig quorums tx assetUnlockTx prevHeight

def checkAssetLockUnlockTx (quorums : QuorumView) (tx : CTransaction)
    (prevHeight : Nat) (indexes : Option CRangesSet) : Except AssetReject Unit :=
  if tx.nType = transactionAssetLock then checkAssetLockTx env tx
  else if tx.nType = transactionAssetUnlock then
    checkAssetUnlockTx env quorums tx prevHeight indexes
  else .error .notAssetLocksAtAll

end Checks

section Accepted

variable {env : AssetEnv} {quorums : QuorumView} {tx : CTransaction}
  {prevHeight : Nat} {indexes : Option CRangesSet}

theorem checkAssetUnlockTx_ok (h : checkAssetUnlockTx env quorums tx prevHeight indexes = .ok ()) :
    tx.vin = [] ∧ ∃ payload, env.assetUnlock tx = some payload := by
  simp only [checkAssetUnlockTx, bind_eq_ok_iff, require_eq_ok_iff, ofOption_eq_ok_iff] at h
  obtain ⟨-, -, -, hvin, -, -, payload, hpayload, -⟩ := h
  exact ⟨List.isEmpty_iff.mp hvin, payload, hpayload⟩

theorem checkAssetLockTx_ok (h : checkAssetLockTx env tx = .ok ()) {txout : CTxOut}
    (hmem : txout ∈ tx.vout) (hreturn : startsWithOpReturn txout.scriptPubKey = true) :
    moneyRange txout.nValue = true := by
  obtain ⟨_, -, returnAmount, hfold, -⟩ := bind₂_eq_ok_iff.mp h
  refine foldlM_invariant (P := fun done _ => ∀ txout ∈ done,
    startsWithOpReturn txout.scriptPubKey = true → moneyRange txout.nValue = true)
    ?_ (by simp) hfold txout hmem hreturn
  intro done next rest amount amount' _ hdone hstep txout hmem hreturn
  rcases List.mem_append.mp hmem with hmem | hmem
  · exact hdone txout hmem hreturn
  · rw [List.mem_singleton.mp hmem] at hreturn ⊢
    unfold returnAmountStep at hstep
    rw [if_neg (by simp [hreturn])] at hstep
    split_ifs at hstep with hscript hrange hmultiple
    cases hstep
    simp only [Bool.or_eq_true, decide_eq_true_eq, Bool.not_eq_true', not_or,
      Bool.not_eq_false] at hrange
    exact hrange.2

end Accepted

end KorshCore
