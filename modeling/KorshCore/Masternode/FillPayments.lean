import KorshCore.Masternode.PaymentMatching

/-!
# The coinbase of a miner

`FillBlockPayments` of `masternode/payments.cpp` completes a coinbase that has
one output for the miner: the masternode payments are appended and taken from
the miner, the payments of a triggered superblock are appended.
-/

namespace KorshCore

open Subsidy List Superblock Except

open scoped List

/-! ## The masternode share of a block value -/

section Share

variable {params : PaymentParams} {nHeight : Nat} {v w : Int}

theorem ite_ediv_mem (condition : Prop) [Decidable condition] (part : Int)
    (hpart : 0 < part) (hv : 0 ≤ v) (hle : v ≤ w) :
    0 ≤ (if condition then v / part else 0) ∧ (if condition then v / part else 0) ≤ v / part ∧
      (if condition then v / part else 0) ≤ if condition then w / part else 0 := by
  have hnonneg := Int.ediv_nonneg hv hpart.le
  have hmono := Int.ediv_le_ediv hpart hle
  split_ifs
  · exact ⟨hnonneg, le_rfl, hmono⟩
  · exact ⟨le_rfl, hnonneg, le_rfl⟩

theorem legacyMasternodePayment_mem (hv : 0 ≤ v) (hle : v ≤ w) :
    0 ≤ legacyMasternodePayment params nHeight v ∧ legacyMasternodePayment params nHeight v ≤ v ∧
      legacyMasternodePayment params nHeight v ≤ legacyMasternodePayment params nHeight w := by
  have hraise := fun (periods : Nat) (part : Int) (hpart : 0 < part) =>
    ite_ediv_mem (params.nMasternodePaymentsIncreaseBlock
      + params.nMasternodePaymentsIncreasePeriod * periods < nHeight) part hpart hv hle
  have h0 := hraise 0 20 (by decide)
  have h1 := hraise 1 20 (by decide)
  have h2 := hraise 2 20 (by decide)
  have h3 := hraise 3 40 (by decide)
  have h4 := hraise 4 40 (by decide)
  have h5 := hraise 5 40 (by decide)
  have h6 := hraise 6 40 (by decide)
  have h7 := hraise 7 40 (by decide)
  have h9 := hraise 9 40 (by decide)
  have hbase : 0 ≤ v / 5 := Int.ediv_nonneg hv (by decide)
  have hmono : v / 5 ≤ w / 5 := Int.ediv_le_ediv (by decide) hle
  have hhalf : v / 5 + 3 * (v / 20) + 6 * (v / 40) ≤ v := by omega
  simp only [legacyMasternodePayment]
  refine ⟨?_, ?_, ?_⟩ <;> linarith

theorem reallocPeriods_mem (n : Nat) :
    0 ≤ reallocPeriods.getD n 0 ∧ reallocPeriods.getD n 0 ≤ 600 := by
  by_cases hn : n < reallocPeriods.length
  · revert hn
    revert n
    decide
  · rw [getD_eq_default _ _ (not_lt.mp hn)]
    decide

theorem mul_ediv_mem (part whole : Int) (hpart : 0 ≤ part) (hwhole : part ≤ whole)
    (hpos : 0 < whole) (hv : 0 ≤ v) (hle : v ≤ w) :
    0 ≤ v * part / whole ∧ v * part / whole ≤ v ∧ v * part / whole ≤ w * part / whole := by
  refine ⟨Int.ediv_nonneg (Int.mul_nonneg hv hpart) hpos.le, ?_, ?_⟩
  · refine Int.ediv_le_of_le_mul hpos ?_
    exact Int.mul_le_mul_of_nonneg_left hwhole hv
  · exact Int.ediv_le_ediv hpos (Int.mul_le_mul_of_nonneg_right hle hpart)

theorem getMasternodePayment_mem (params : PaymentParams) (nHeight : Nat)
    (fV20Active : Bool) (hv : 0 ≤ v) (hle : v ≤ w) :
    0 ≤ getMasternodePayment params nHeight v fV20Active ∧
      getMasternodePayment params nHeight v fV20Active ≤ v ∧
      getMasternodePayment params nHeight v fV20Active
        ≤ getMasternodePayment params nHeight w fV20Active := by
  simp only [getMasternodePayment]
  split_ifs
  · exact mul_ediv_mem _ _ (by decide) (by decide) (by decide) hv hle
  · exact mul_ediv_mem _ _ (by decide) (by decide) (by decide) hv hle
  · exact legacyMasternodePayment_mem hv hle
  · exact legacyMasternodePayment_mem hv hle
  · exact legacyMasternodePayment_mem hv hle
  · exact mul_ediv_mem _ _ (by decide) (by decide) (by decide) hv hle
  · obtain ⟨hnonneg, hmax⟩ := reallocPeriods_mem
      (min ((nHeight - (params.brrHeight - params.brrHeight % params.nSuperblockCycle
        + params.nSuperblockCycle)) / (params.nSuperblockCycle * 3))
        (reallocPeriods.length - 1))
    exact mul_ediv_mem _ _ hnonneg (by omega) (by decide) hv hle

end Share

section Limit

variable {params : Params} {difficultyBase : Nat → Nat → Int}

theorem cappedSubsidy_nonneg_of_all (p : Nat) : 0 ≤ cappedSubsidy params p := by
  have hnonneg : 0 ≤ uncappedSubsidy params p := by
    have hbase : 0 ≤ kBaseSubsidy := by decide
    have hshift := shiftRight_nonneg hbase (p / halvingInterval params p)
    simp only [uncappedSubsidy]
    split_ifs <;> omega
  simp only [cappedSubsidy]
  split_ifs <;> omega

theorem decline_nonneg : ∀ (n : Nat) {nSubsidy : Int}, 0 ≤ nSubsidy → 0 ≤ decline n nSubsidy
  | 0, _, h => h
  | n + 1, nSubsidy, h => decline_nonneg n (by omega)

theorem getSuperblockSubsidyInner_nonneg (hbase : ∀ nBits h, 0 ≤ difficultyBase nBits h)
    (hfactor : 0 ≤ params.nHighSubsidyFactor) (nBits h : Nat) (v20 : Bool) :
    0 ≤ getSuperblockSubsidyInner difficultyBase nBits h params v20 := by
  have hcoin : (0 : Int) ≤ coin := by decide
  have hfive : (0 : Int) ≤ 5 * coin := by decide
  have hcapped : 0 ≤ cappedSubsidy params h := cappedSubsidy_nonneg_of_all h
  have hdecline := decline_nonneg (h / params.nSubsidyHalvingInterval)
    (Int.mul_nonneg (hbase nBits h) hcoin)
  have hdecline' := decline_nonneg (h / params.nSubsidyHalvingInterval) hfive
  have hmul := Int.mul_nonneg hdecline hfactor
  have hmul' := Int.mul_nonneg hdecline' hfactor
  simp only [getSuperblockSubsidyInner, getBlockSubsidyHelper]
  split_ifs <;> first | exact le_rfl | exact Int.ediv_nonneg (by assumption) (by decide)

theorem getPaymentsLimit_nonneg (hbase : ∀ nBits h, 0 ≤ difficultyBase nBits h)
    (hfactor : 0 ≤ params.nHighSubsidyFactor) (nBlockHeight : Nat) :
    0 ≤ getPaymentsLimit difficultyBase params nBlockHeight := by
  simp only [getPaymentsLimit]
  split_ifs
  · exact le_rfl
  · exact Int.mul_nonneg (getSuperblockSubsidyInner_nonneg hbase hfactor _ _ _)
      (Int.natCast_nonneg _)
  · exact Int.mul_nonneg (getSuperblockSubsidyInner_nonneg hbase hfactor _ _ _)
      (Int.natCast_nonneg _)

end Limit

namespace PaymentsState

/-! ## Completing a coinbase -/

section Fill

variable (st : PaymentsState)

/-- `CGovernanceManager::GetSuperblockPayments`: the payments of the best
superblock, or none. -/
def getSuperblockPayments : List CTxOut :=
  st.getBestSuperblock.elim [] fun superblock =>
    superblock.vecPayments.map CGovernancePayment.toTxOut

def voutSuperblockPayments : List CTxOut :=
  if st.fSuperblocksEnabled && st.isSuperblockTriggered then st.getSuperblockPayments
  else []

def payFromFirst (vout : List CTxOut) (txout : CTxOut) : List CTxOut :=
  vout.modifyHead fun first => { first with nValue := first.nValue - txout.nValue }

/-- `CMNPaymentsProcessor::FillBlockPayments`. What `GetBlockTxOuts` leaves
behind is paid even where it does not know the payee. -/
def fillBlockPayments (txNew : CTransaction) (blockSubsidy feeReward : Int) :
    Except PaymentsError CTransaction := do
  let (_, voutMasternodePayments) ← st.getBlockTxOuts blockSubsidy feeReward
  let vout := txNew.vout ++ voutMasternodePayments ++ st.voutSuperblockPayments
  .ok { txNew with vout := voutMasternodePayments.foldl payFromFirst vout }

/-- What a node's state and the parameters of the networks satisfy. An
operator reward above 10000 is refused at registration, `ParsePaymentAmount`
refuses amounts out of range, and old budgets come before superblocks. -/
structure Sound : Prop where
  nOperatorReward : ∀ dmnPayee, st.dmnPayee = some dmnPayee →
    0 ≤ dmnPayee.nOperatorReward ∧ dmnPayee.nOperatorReward ≤ 10000
  nAmount : ∀ trigger ∈ st.triggers, ∀ payment ∈ trigger.vecPayments, 0 ≤ payment.nAmount
  budgets : st.params.nBudgetPaymentsStartBlock ≤ st.params.nSuperblockStartBlock
  difficultyBase : ∀ nBits h, 0 ≤ st.difficultyBase nBits h
  nHighSubsidyFactor : 0 ≤ st.params.nHighSubsidyFactor

end Fill

variable {st : PaymentsState} {blockSubsidy feeReward : Int}

theorem voutSum_nil : voutSum [] = 0 := rfl

theorem voutSum_nonneg {vout : List CTxOut} (h : ∀ out ∈ vout, 0 ≤ out.nValue) :
    0 ≤ voutSum vout := by
  refine sum_nonneg ?_
  intro value hvalue
  obtain ⟨out, hout, rfl⟩ := mem_map.mp hvalue
  exact h out hout

theorem foldl_payFromFirst : ∀ (payments : List CTxOut) (first : CTxOut)
    (rest : List CTxOut), payments.foldl payFromFirst (first :: rest)
      = { first with nValue := first.nValue - voutSum payments } :: rest
  | [], first, rest => by simp [voutSum_nil]
  | payment :: payments, first, rest => by
    rw [foldl_cons, payFromFirst, modifyHead_cons, foldl_payFromFirst, voutSum_cons]
    simp [Int.sub_sub]

/-! ## The masternode payments -/

theorem payeePayments_mem {dmnPayee : MasternodePayee} {reward : Int}
    (hoperator : 0 ≤ dmnPayee.nOperatorReward ∧ dmnPayee.nOperatorReward ≤ 10000)
    (hreward : 0 ≤ reward) : (∀ out ∈ payeePayments dmnPayee reward, 0 ≤ out.nValue) ∧
      voutSum (payeePayments dmnPayee reward) ≤ reward := by
  obtain ⟨hnonneg, hle, -⟩ := mul_ediv_mem dmnPayee.nOperatorReward 10000 hoperator.1
    hoperator.2 (by decide) hreward (le_refl reward)
  unfold payeePayments
  constructor
  · intro out hout
    simp only [mem_append] at hout
    rcases hout with hout | hout <;> split_ifs at hout <;>
      simp only [mem_singleton, not_mem_nil] at hout <;> subst hout <;>
      simp only <;> omega
  · simp only [voutSum, map_append, sum_append]
    split_ifs <;> simp <;> omega

theorem exists_platformPayment (st : PaymentsState) (hsubsidy : 0 ≤ blockSubsidy)
    (hfee : 0 ≤ feeReward) (hmax : blockSubsidy + feeReward ≤ maxMoney) :
    ∃ platform reward, st.platformPayment blockSubsidy feeReward = .ok (platform, reward) ∧
      (∀ out ∈ platform, 0 ≤ out.nValue) ∧ 0 ≤ reward ∧
      voutSum platform + reward ≤ blockSubsidy + feeReward := by
  obtain ⟨hnonneg, hle, -⟩ := getMasternodePayment_mem st.params st.nBlockHeight
    st.fV20Active (Int.add_nonneg hsubsidy hfee) (le_refl (blockSubsidy + feeReward))
  obtain ⟨hpart, hpartLe, hpartMono⟩ := getMasternodePayment_mem st.params
    st.nBlockHeight st.fV20Active hsubsidy (Int.le_add_of_nonneg_right hfee)
  obtain ⟨hshare, hshareLe, -⟩ :=
    mul_ediv_mem 375 1000 (by decide) (by decide) (by decide) hpart le_rfl
  unfold platformPayment
  split_ifs with hactive
  · have hrange : moneyRange (getMasternodePayment st.params st.nBlockHeight blockSubsidy
        st.fV20Active * 375 / 1000) = true := moneyRange_iff.mpr ⟨hshare, by omega⟩
    simp only [platformShare, hrange, if_true, ok_bind]
    rw [if_pos (moneyRange_iff.mpr ⟨by omega, by omega⟩)]
    refine ⟨_, _, rfl, ?_, by omega, ?_⟩
    · intro out hout
      rw [mem_singleton.mp hout]
      exact hshare
    · simp only [voutSum_cons, voutSum_nil]
      omega
  · exact ⟨[], _, rfl, by simp, hnonneg, by rw [voutSum_nil]; omega⟩

theorem exists_getBlockTxOuts (hsound : st.Sound) (hsubsidy : 0 ≤ blockSubsidy)
    (hfee : 0 ≤ feeReward) (hmax : blockSubsidy + feeReward ≤ maxMoney) :
    ∃ found payments, st.getBlockTxOuts blockSubsidy feeReward = .ok (found, payments) ∧
      (∀ out ∈ payments, 0 ≤ out.nValue) ∧ voutSum payments ≤ blockSubsidy + feeReward := by
  obtain ⟨platform, reward, hplatform, hnonneg, hreward, hle⟩ :=
    exists_platformPayment st hsubsidy hfee hmax
  unfold getBlockTxOuts
  rw [hplatform]
  simp only [ok_bind]
  split_ifs with hcount
  · exact ⟨true, platform, rfl, hnonneg, by omega⟩
  · cases hpayee : st.dmnPayee with
    | none => exact ⟨false, platform, rfl, hnonneg, by omega⟩
    | some dmnPayee =>
      obtain ⟨hpays, hpaysLe⟩ := payeePayments_mem (hsound.nOperatorReward dmnPayee hpayee) hreward
      refine ⟨true, _, rfl, ?_, ?_⟩
      · intro out hout
        rcases mem_append.mp hout with hout | hout
        · exact hnonneg out hout
        · exact hpays out hout
      · rw [voutSum_append]
        omega

theorem mem_triggers_of_getBestSuperblock {superblock : Trigger}
    (h : st.getBestSuperblock = some superblock) : superblock ∈ st.triggers := by
  unfold getBestSuperblock at h
  split_ifs at h
  revert h
  suffices hfold : ∀ (triggers : List Trigger) (best : Int × Option Trigger),
      (∀ t, best.2 = some t → t ∈ st.triggers) → triggers ⊆ st.triggers →
      ∀ t, (triggers.foldl (fun (best : Int × Option Trigger) trigger =>
        if st.nBlockHeight == trigger.nBlockHeight
            && decide (best.1 < trigger.absoluteYesCount) then
          (trigger.absoluteYesCount, some trigger)
        else best) best).2 = some t → t ∈ st.triggers from
    fun h => hfold st.triggers (0, none) (by simp) (Subset.refl _) superblock h
  intro triggers
  induction triggers with
  | nil =>
    intro best hbest _ t ht
    exact hbest t ht
  | cons trigger triggers ih =>
    intro best hbest hsub t ht
    rw [foldl_cons] at ht
    refine ih _ ?_ (fun x hx => hsub (mem_cons_of_mem _ hx)) t ht
    intro t' ht'
    split_ifs at ht' with hbetter
    · cases ht'
      exact hsub mem_cons_self
    · exact hbest t' ht'

theorem voutSum_toTxOut (superblock : Trigger) :
    voutSum (superblock.vecPayments.map CGovernancePayment.toTxOut)
      = paymentsTotalAmount superblock := by
  simp only [voutSum, paymentsTotalAmount, map_map]
  rfl

theorem voutSuperblockPayments_nonneg (hsound : st.Sound) :
    ∀ out ∈ st.voutSuperblockPayments, 0 ≤ out.nValue := by
  intro out hout
  unfold voutSuperblockPayments getSuperblockPayments at hout
  split_ifs at hout
  · cases hbest : st.getBestSuperblock with
    | none => simp [hbest] at hout
    | some superblock =>
      rw [hbest] at hout
      obtain ⟨payment, hpayment, rfl⟩ := mem_map.mp hout
      exact hsound.nAmount superblock (mem_triggers_of_getBestSuperblock hbest) payment hpayment
  · cases hout

theorem voutSum_voutSuperblockPayments_le (hsound : st.Sound)
    (hlimit : ∀ superblock, st.getBestSuperblock = some superblock →
      paymentsTotalAmount superblock ≤ st.paymentsLimit) :
    voutSum st.voutSuperblockPayments ≤ st.paymentsLimit := by
  have hnonneg : 0 ≤ st.paymentsLimit :=
    getPaymentsLimit_nonneg hsound.difficultyBase hsound.nHighSubsidyFactor _
  unfold voutSuperblockPayments getSuperblockPayments
  split_ifs
  · cases hbest : st.getBestSuperblock with
    | none => exact hnonneg
    | some superblock =>
      rw [Option.elim_some, voutSum_toTxOut]
      exact hlimit superblock hbest
  · exact hnonneg

/-! ## The completed coinbase -/

theorem valueOut_eq_voutSum {tx : CTransaction}
    (hall : ∀ out ∈ tx.vout, 0 ≤ out.nValue) (hle : voutSum tx.vout ≤ maxMoney)
    (hshield : 0 ≤ tx.sapData.valueBalance) : valueOut tx = .ok (voutSum tx.vout) := by
  have hsum : tx.vout.foldlM
      (fun sum out => CTransaction.addValueOut sum out.nValue) 0 = some (voutSum tx.vout) :=
    (foldlM_addValueOut (le_refl 0) (by decide)).mpr
      ⟨hall, by rwa [Int.zero_add], (Int.zero_add _).symm⟩
  have hbalance : ¬ ((tx.hasShieldedPayloadField
      && decide (tx.sapData.valueBalance < 0)) = true) := by
    simp only [Bool.and_eq_true, decide_eq_true_eq, not_and]
    omega
  have hvalue : tx.getValueOut = some (voutSum tx.vout) := by
    unfold CTransaction.getValueOut
    rw [hsum]
    simp only [Option.bind_eq_bind, Option.bind_some]
    rw [if_neg hbalance]
  unfold valueOut
  rw [hvalue]

structure Filled (st : PaymentsState) (blockSubsidy feeReward : Int)
    (coinbase : CTransaction) : Prop where
  value : valueOut coinbase = .ok (blockSubsidy + feeReward + voutSum st.voutSuperblockPayments)
  masternode : ∀ found payments,
    st.getBlockTxOuts blockSubsidy feeReward = .ok (found, payments) → payments ⊆ coinbase.vout
  exists_payments : ∃ result, st.getBlockTxOuts blockSubsidy feeReward = .ok result
  superblock : st.voutSuperblockPayments <+ coinbase.vout

theorem exists_filled (hsound : st.Sound) (hsubsidy : 0 ≤ blockSubsidy) (hfee : 0 ≤ feeReward)
    (hmax : blockSubsidy + feeReward + voutSum st.voutSuperblockPayments ≤ maxMoney)
    {tx : CTransaction} {script : List UInt8}
    (hvout : tx.vout = [⟨blockSubsidy + feeReward, script⟩])
    (hshield : 0 ≤ tx.sapData.valueBalance) :
    ∃ filled miner rest, st.fillBlockPayments tx blockSubsidy feeReward = .ok filled ∧
      filled.vout = miner :: rest ∧ 0 ≤ miner.nValue ∧
      voutSum filled.vout = blockSubsidy + feeReward + voutSum st.voutSuperblockPayments ∧
      st.Filled blockSubsidy feeReward filled := by
  have hsuperblock := voutSuperblockPayments_nonneg hsound
  have hnonneg := voutSum_nonneg hsuperblock
  obtain ⟨found, payments, hpayments, hpays, hle⟩ :=
    exists_getBlockTxOuts hsound hsubsidy hfee (by omega)
  have hfilled : st.fillBlockPayments tx blockSubsidy feeReward = .ok { tx with
      vout := ⟨blockSubsidy + feeReward - voutSum payments, script⟩
        :: (payments ++ st.voutSuperblockPayments) } := by
    simp [fillBlockPayments, hpayments, hvout, foldl_payFromFirst]
  have hsum : voutSum (⟨blockSubsidy + feeReward - voutSum payments, script⟩
      :: (payments ++ st.voutSuperblockPayments))
        = blockSubsidy + feeReward + voutSum st.voutSuperblockPayments := by
    rw [voutSum_cons, voutSum_append]
    dsimp only
    omega
  refine ⟨_, _, _, hfilled, rfl, Int.sub_nonneg.mpr hle, hsum, ?_, ?_, ⟨_, hpayments⟩, ?_⟩
  · rw [← hsum]
    refine valueOut_eq_voutSum ?_ (by rw [hsum]; exact hmax) hshield
    intro out hout
    rcases mem_cons.mp hout with rfl | hout
    · exact Int.sub_nonneg.mpr hle
    · rcases mem_append.mp hout with hout | hout
      · exact hpays out hout
      · exact hsuperblock out hout
  · intro found' payments' hpayments'
    rw [hpayments] at hpayments'
    cases hpayments'
    intro out hout
    exact mem_cons_of_mem _ (mem_append_left _ hout)
  · exact (sublist_append_right _ _).cons _

variable {coinbase : CTransaction} {checkSuperblock : Bool}

section

variable (h : st.Filled blockSubsidy feeReward coinbase)
include h

theorem Filled.isValidSuperblock (henabled : st.fSuperblocksEnabled = true)
    (htriggered : st.isSuperblockTriggered = true) {superblock : Trigger}
    (hbest : st.getBestSuperblock = some superblock)
    (hlimit : paymentsTotalAmount superblock ≤ st.paymentsLimit) :
    st.isValidSuperblock coinbase (blockSubsidy + feeReward) = .ok true := by
  have hpayments : st.voutSuperblockPayments
      = superblock.vecPayments.map CGovernancePayment.toTxOut := by
    unfold voutSuperblockPayments getSuperblockPayments
    rw [if_pos (by simp [henabled, htriggered]), hbest, Option.elim_some]
  have hheight : isValidBlockHeight st.params.toParams st.nBlockHeight = true :=
    (Bool.and_eq_true _ _ ▸ htriggered).1
  have hsub := h.superblock
  have hvalue := h.value
  rw [hpayments] at hsub hvalue
  rw [voutSum_toTxOut] at hvalue
  unfold PaymentsState.isValidSuperblock
  rw [hbest]
  refine superblockIsValid_eq_ok_true.mpr
    ⟨hheight, ?_, hlimit, _, hvalue, le_rfl, (destutter_sublist _ _).trans hsub⟩
  simpa using hsub.length_le

theorem Filled.isTransactionValid :
    st.isTransactionValid coinbase blockSubsidy feeReward = .ok true := by
  by_cases henforced : st.params.dip0003EnforcementHeight ≤ st.nBlockHeight
  · refine (isTransactionValid_eq_ok_true henforced).mpr ⟨h.exists_payments, ?_⟩
    obtain ⟨⟨found, payments⟩, hpayments⟩ := h.exists_payments
    unfold lookedForMasternode masternodePayments
    rw [hpayments]
    split_ifs
    · exact h.masternode found payments hpayments
    · exact nil_subset _
  · unfold PaymentsState.isTransactionValid
    rw [if_pos (by omega)]

end

theorem Filled.isBlockValueValid (hsound : st.Sound)
    (hlimit : ∀ superblock, st.getBestSuperblock = some superblock →
      paymentsTotalAmount superblock ≤ st.paymentsLimit)
    (hvalid : st.fSynced = true → st.superblockChecked checkSuperblock = true →
      st.isSuperblockTriggered = true →
      st.isValidSuperblock coinbase (blockSubsidy + feeReward) = .ok true)
    (h : st.Filled blockSubsidy feeReward coinbase) :
    st.isBlockValueValid coinbase (blockSubsidy + feeReward) checkSuperblock = .ok () := by
  by_cases hpaid : (st.fSuperblocksEnabled && st.isSuperblockTriggered) = true
  · rw [Bool.and_eq_true] at hpaid
    have hstart := superblockStart_le_of_triggered hpaid.2
    have hbudgets := hsound.budgets
    have hheight : isValidBlockHeight st.params.toParams st.nBlockHeight = true :=
      (Bool.and_eq_true _ _ ▸ hpaid.2).1
    have hle := voutSum_voutSuperblockPayments_le hsound hlimit
    unfold PaymentsState.isBlockValueValid
    rw [h.value, ok_bind, if_neg (by omega), if_neg (by omega),
      if_neg (by simp [hheight]), if_neg (by omega)]
    simp only [hpaid.1, hpaid.2, Bool.not_true, Bool.false_eq_true, if_false]
    split_ifs with hsynced hcheck
    · rfl
    · rfl
    · simp only [Bool.or_eq_true, Bool.not_eq_true', not_or, Bool.not_eq_false] at hsynced hcheck
      rw [hvalid hsynced.1 (by simp [superblockChecked, hsynced.2, hpaid.1, hcheck]) hpaid.2]
      rfl
  · rw [Bool.not_eq_true] at hpaid
    have hnonneg : 0 ≤ st.paymentsLimit :=
      getPaymentsLimit_nonneg hsound.difficultyBase hsound.nHighSubsidyFactor _
    have hnone : st.voutSuperblockPayments = [] := by
      rw [voutSuperblockPayments, if_neg (by simp [hpaid])]
    unfold PaymentsState.isBlockValueValid isOldBudgetBlockValueValid
    rw [h.value, hnone, voutSum_nil, Int.add_zero]
    simp only [ok_bind, le_refl, decide_true, require, if_true]
    split_ifs <;> first | rfl | omega | simp_all

theorem Filled.isBlockPayeeValid
    (hvalid : st.fSynced = true → st.superblockChecked checkSuperblock = true →
      st.isSuperblockTriggered = true →
      st.isValidSuperblock coinbase (blockSubsidy + feeReward) = .ok true)
    (h : st.Filled blockSubsidy feeReward coinbase) :
    st.isBlockPayeeValid coinbase blockSubsidy feeReward checkSuperblock = .ok true := by
  cases hsynced : st.fSynced with
  | false => simp [PaymentsState.isBlockPayeeValid, h.isTransactionValid, hsynced]
  | true =>
    exact (isBlockPayeeValid_eq_ok_true hsynced).mpr ⟨h.isTransactionValid, hvalid hsynced⟩

variable (st blockSubsidy feeReward checkSuperblock) in
/-- The coinbase that `FillBlockPayments` completes leaves the miner a
non-negative output, pays the subsidy, the fees and the superblock, and is
accepted in the same state, exactly when that is a valid amount and a
superblock that is triggered and will be checked is one that still has
votes. -/
theorem fillBlockPayments_accepted_iff (hsound : st.Sound)
    (hsubsidy : 0 ≤ blockSubsidy) (hfee : 0 ≤ feeReward)
    (hlimit : ∀ superblock, st.getBestSuperblock = some superblock →
      paymentsTotalAmount superblock ≤ st.paymentsLimit) (tx : CTransaction) (script : List UInt8)
    (hvout : tx.vout = [⟨blockSubsidy + feeReward, script⟩])
    (hshield : 0 ≤ tx.sapData.valueBalance) :
    (∃ filled miner rest, st.fillBlockPayments tx blockSubsidy feeReward = .ok filled ∧
      filled.vout = miner :: rest ∧ 0 ≤ miner.nValue ∧
      voutSum filled.vout = blockSubsidy + feeReward + voutSum st.voutSuperblockPayments ∧
      st.Accepted blockSubsidy feeReward checkSuperblock filled) ↔
    blockSubsidy + feeReward + voutSum st.voutSuperblockPayments ≤ maxMoney ∧
    (st.fSynced = true → st.superblockChecked checkSuperblock = true →
      st.isSuperblockTriggered = true → st.getBestSuperblock.isSome = true) := by
  constructor
  · rintro ⟨filled, _, _, _, _, _, hsum, hvalue, hpayee⟩
    obtain ⟨nValueOut, hvalueOut, _⟩ := bind_eq_ok_iff.mp hvalue
    refine ⟨hsum ▸ (valueOut_eq_ok hvalueOut).2.1, ?_⟩
    intro hsynced hchecked htriggered
    have hvalid := ((isBlockPayeeValid_eq_ok_true hsynced).mp hpayee).2 hchecked htriggered
    by_contra hnone
    rw [Bool.not_eq_true, Option.isSome_eq_false_iff, Option.isNone_iff_eq_none] at hnone
    unfold isValidSuperblock at hvalid
    rw [hnone] at hvalid
    cases hvalid
  · rintro ⟨hmax, hvotes⟩
    obtain ⟨filled, miner, rest, hfill, hrest, hminer, hsum, hfilled⟩ :=
      exists_filled hsound hsubsidy hfee hmax hvout hshield
    have hvalid : st.fSynced = true → st.superblockChecked checkSuperblock = true →
        st.isSuperblockTriggered = true →
        st.isValidSuperblock filled (blockSubsidy + feeReward) = .ok true := by
      intro hsynced hchecked htriggered
      obtain ⟨superblock, hbest⟩ := Option.isSome_iff_exists.mp (hvotes hsynced hchecked htriggered)
      have henabled : st.fSuperblocksEnabled = true := by
        simp only [superblockChecked, Bool.and_eq_true] at hchecked
        exact hchecked.1.2
      exact hfilled.isValidSuperblock henabled htriggered hbest (hlimit superblock hbest)
    exact ⟨filled, miner, rest, hfill, hrest, hminer, hsum,
      hfilled.isBlockValueValid hsound hlimit hvalid, hfilled.isBlockPayeeValid hvalid⟩

/-- A trigger that was funded, after some of its voters have left the list. -/
def votedState (nMasternodes : Nat) : PaymentsState :=
  { superblockState [⟨[2], 5⟩] with
    allMNsCount := nMasternodes
    nWeightedMnCount := nMasternodes
    dmnPayee := if nMasternodes = 0 then none else some ⟨0, [1], []⟩
    triggers := [⟨43200, [⟨[2], 5⟩], nMasternodes, true⟩] }

theorem sound_votedState (nMasternodes : Nat) : (votedState nMasternodes).Sound where
  nOperatorReward dmnPayee h := by
    unfold votedState at h
    dsimp only at h
    split_ifs at h
    cases h
    exact ⟨by decide, by decide⟩
  nAmount trigger h payment hpayment := by
    obtain rfl := mem_singleton.mp h
    obtain rfl := mem_singleton.mp hpayment
    decide
  budgets := by
    show testNetParams.nBudgetPaymentsStartBlock ≤ testNetParams.nSuperblockStartBlock
    decide
  difficultyBase _ _ := le_refl 0
  nHighSubsidyFactor := by
    show 0 ≤ testNetParams.nHighSubsidyFactor
    decide

theorem fillBlockPayments_accepted_voted : ∃ filled miner rest,
      (votedState 1).fillBlockPayments (plainCoinbase [⟨100, [3]⟩]) 90 10 = .ok filled ∧
      filled.vout = miner :: rest ∧ 0 ≤ miner.nValue ∧
      voutSum filled.vout = 90 + 10 + voutSum (votedState 1).voutSuperblockPayments ∧
      (votedState 1).Accepted 90 10 true filled := by
  refine (fillBlockPayments_accepted_iff (votedState 1) 90 10 true
    (sound_votedState 1) (by decide) (by decide) ?_ _ [3] rfl (by decide)).mpr
    ⟨by decide +kernel, fun _ _ _ => by decide +kernel⟩
  have hbest : (votedState 1).getBestSuperblock = some ⟨43200, [⟨[2], 5⟩], 1, true⟩ := by
    decide +kernel
  intro superblock h
  cases hbest.symm.trans h
  decide +kernel

/-- When the last masternode has left, the flag of the trigger is not updated any
more: the coinbase that the node completes is one that it rejects. -/
theorem fillBlockPayments_not_accepted :
    (votedState 0).Sound ∧ (votedState 0).isSuperblockTriggered = true ∧
      (votedState 0).fillBlockPayments (plainCoinbase [⟨100, [3]⟩]) 90 10
        = .ok (plainCoinbase [⟨100, [3]⟩]) ∧
      (votedState 0).isBlockValueValid (plainCoinbase [⟨100, [3]⟩]) (90 + 10) true
        = .error .invalidSuperblock ∧
      (votedState 0).isBlockPayeeValid (plainCoinbase [⟨100, [3]⟩]) 90 10 true = .ok false :=
  ⟨sound_votedState 0, by decide +kernel, by decide +kernel, by decide +kernel, by decide +kernel⟩

end PaymentsState

end KorshCore
