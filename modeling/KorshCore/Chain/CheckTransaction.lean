import KorshCore.Primitives.TransactionFormat

/-!
# Checks of a transaction without coins

`CheckTransaction` of `consensus/tx_check.cpp` with the Sapling part of
`sapling/sapling_validation.cpp`. `TxChecked` is what has been tested of a
transaction that passes, and `checkTransaction_eq_ok` proves it.
-/

namespace KorshCore

open Except SpendDescription

inductive TxReject where
  /-- "bad-txns-empty". -/
  | empty
  /-- "bad-txns-vin-empty". -/
  | vinEmpty
  /-- "bad-txns-vout-empty". -/
  | voutEmpty
  /-- "bad-txns-oversize". -/
  | oversize
  /-- "bad-txns-payload-oversize". -/
  | payloadOversize
  /-- "bad-txns-vout-negative". -/
  | voutNegative
  /-- "bad-txns-vout-toolarge". -/
  | voutTooLarge
  /-- "bad-txns-txouttotal-toolarge". -/
  | txoutTotalTooLarge
  /-- "bad-txns-txintotal-toolarge". -/
  | txinTotalTooLarge
  /-- "bad-txns-form-not-sapling". -/
  | formNotSapling
  /-- "bad-cb-has-shielded-data". -/
  | cbHasShieldedData
  /-- "bad-txns-valuebalance-nonzero". -/
  | valueBalanceNonzero
  /-- "bad-txns-valuebalance-toolarge". -/
  | valueBalanceTooLarge
  /-- "bad-spend-description-nullifiers-duplicate". -/
  | nullifiersDuplicate
  /-- "bad-txns-inputs-duplicate". -/
  | inputsDuplicate
  /-- "bad-cb-length". -/
  | cbLength
  /-- "bad-txns-prevout-null". -/
  | prevoutNull
  /-- "bad-assetunlocktx-payload". -/
  | assetUnlockPayload
  /-- "bad-txns-assetunlock-fee-outofrange". -/
  | assetUnlockFee
  /-- "bad-txns-inputs-missingorspent". -/
  | inputsMissingOrSpent
  /-- "bad-txns-sapling-requirements-not-met". -/
  | saplingRequirements
  /-- "bad-txns-premature-spend-of-coinbase". -/
  | prematureSpend
  /-- "bad-txns-inputvalues-outofrange". -/
  | inputValues
  /-- "bad-txns-in-belowout". -/
  | inBelowOut
  /-- `GetValueOut` throws "value out of range". -/
  | valueOutThrows
  /-- "bad-txns-fee-outofrange". -/
  | feeOutOfRange
  deriving DecidableEq, Repr

def maxLegacyBlockSize : Nat := 1000000

def maxTxExtraPayload : Nat := 10000

namespace CTransaction

variable (tx : CTransaction)

def allowEmptyTxIn : Bool :=
  tx.nType == transactionQuorumCommitment || tx.nType == transactionMnhfSignal ||
    tx.nType == transactionAssetUnlock || tx.hasShieldedPayload

def allowEmptyTxOut : Bool :=
  tx.nType == transactionQuorumCommitment || tx.nType == transactionMnhfSignal ||
    tx.hasShieldedPayload

end CTransaction

def checkValueOut (nValueOut : Int) (out : CTxOut) : Except TxReject Int := do
  require .voutNegative (0 ≤ out.nValue)
  require .voutTooLarge (out.nValue ≤ maxMoney)
  require .txoutTotalTooLarge (moneyRange (nValueOut + out.nValue))
  .ok (nValueOut + out.nValue)

/-- `SaplingValidation::CheckTransactionWithoutProofVerification`. -/
def checkSaplingData (sapData : SaplingTxData) (nValueOut : Int) : Except TxReject Unit := do
  require .valueBalanceNonzero
    (!(sapData.vShieldedSpend.isEmpty && sapData.vShieldedOutput.isEmpty &&
      sapData.valueBalance != 0))
  require .valueBalanceTooLarge
    (sapData.valueBalance ≤ maxMoney && -maxMoney ≤ sapData.valueBalance)
  checkIf (sapData.valueBalance < 0)
    (require .txoutTotalTooLarge (moneyRange (nValueOut + -sapData.valueBalance)))
  checkIf (0 < sapData.valueBalance) (require .txinTotalTooLarge (moneyRange sapData.valueBalance))
  require .nullifiersDuplicate
    (decide (sapData.vShieldedSpend.map nullifier).Nodup)

def checkSapling (tx : CTransaction) (nValueOut : Int) : Except TxReject Unit :=
  if !tx.hasShieldedPayload then .ok ()
  else do
    require .formNotSapling tx.isShieldedTxVersion
    require .cbHasShieldedData (!tx.isCoinBase)
    checkSaplingData tx.sapData nValueOut

def checkCoinbaseScript (tx : CTransaction) : Except TxReject Unit :=
  let size := (tx.vin.head?.map fun txin => txin.scriptSig.length).getD 0
  let minCbSize := if tx.nType = transactionCoinbase then 1 else 2
  require .cbLength (minCbSize ≤ size && size ≤ 100)

def checkTransaction (tx : CTransaction) : Except TxReject Unit := do
  require .empty (!(tx.vin.isEmpty && tx.vout.isEmpty &&
    (!tx.allowEmptyTxIn || !tx.allowEmptyTxOut)))
  require .vinEmpty (!(!tx.allowEmptyTxIn && tx.vin.isEmpty))
  require .voutEmpty (!(!tx.allowEmptyTxOut && tx.vout.isEmpty))
  require .oversize (tx.serialize.length ≤ maxLegacyBlockSize)
  require .payloadOversize (tx.vExtraPayload.length ≤ maxTxExtraPayload)
  let nValueOut ← tx.vout.foldlM checkValueOut 0
  checkSapling tx nValueOut
  require .inputsDuplicate (decide (tx.vin.map CTxIn.prevout).Nodup)
  if tx.isCoinBase then checkCoinbaseScript tx
  else require .prevoutNull (tx.vin.all fun txin => !txin.prevout.isNull)

variable {tx : CTransaction} {u : Unit}

/-- What `CheckTransaction` guarantees about the inputs and the Sapling part. -/
structure TxChecked (tx : CTransaction) : Prop where
  prevouts : (tx.vin.map CTxIn.prevout).Nodup
  nullifiers : (tx.shieldedSpends.map nullifier).Nodup
  shieldedCoinbase : tx.isCoinBase = true → tx.hasShieldedPayload = false

theorem CTransaction.shieldedSpends_of_not_payload
    (h : tx.hasShieldedPayload = false) : tx.shieldedSpends = [] := by
  unfold CTransaction.hasShieldedPayload at h
  unfold CTransaction.shieldedSpends
  split_ifs with hfield
  · rw [hfield, Bool.true_and, Bool.not_eq_false'] at h
    unfold SaplingTxData.isEmpty at h
    simp only [Bool.and_eq_true, List.isEmpty_iff] at h
    exact h.1.1.2
  · rfl

theorem CTransaction.shieldedSpends_of_payload (h : tx.hasShieldedPayload = true) :
    tx.shieldedSpends = tx.sapData.vShieldedSpend :=
  if_pos (Bool.and_eq_true_iff.mp h).1

theorem checkTransaction_eq_ok (h : checkTransaction tx = .ok u) : TxChecked tx := by
  simp only [checkTransaction, bind_eq_ok_iff, require_eq_ok_iff, exists_const] at h
  obtain ⟨_, _, _, _, _, _, _, _, hsapling, hprevouts, _⟩ := h
  unfold checkSapling at hsapling
  cases hpayload : tx.hasShieldedPayload with
  | false =>
    refine ⟨of_decide_eq_true hprevouts, ?_, fun _ => hpayload⟩
    rw [CTransaction.shieldedSpends_of_not_payload hpayload]
    exact List.nodup_nil
  | true =>
    rw [hpayload, if_neg (by decide)] at hsapling
    simp only [checkSaplingData, bind_eq_ok_iff, require_eq_ok_iff, exists_const] at hsapling
    obtain ⟨_, hcoinbase, _, _, _, _, _, _, hnullifiers⟩ := hsapling
    refine ⟨of_decide_eq_true hprevouts, ?_, fun h => by simp [h] at hcoinbase⟩
    rw [CTransaction.shieldedSpends_of_payload hpayload]
    exact of_decide_eq_true hnullifiers

end KorshCore
