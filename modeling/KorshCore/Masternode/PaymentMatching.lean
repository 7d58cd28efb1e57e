import KorshCore.Masternode.Payments

/-!
# What an accepted coinbase pays

The payments that a block is expected to make, those that the two checks of
`masternode/payments.cpp` look for, and whether an accepted coinbase contains
them all. The checks do not count: an output may serve for a masternode payment
and for a superblock payment, and the cursor of `CSuperblock::IsValid` may find
one output for two equal payments in a row.
-/

namespace KorshCore

open Except CTransaction Matching List Superblock

open scoped List

/-! ## The value of outputs -/

def voutSum (vout : List CTxOut) : Int := (vout.map CTxOut.nValue).sum

theorem voutSum_cons (out : CTxOut) (vout : List CTxOut) :
    voutSum (out :: vout) = out.nValue + voutSum vout := sum_cons

theorem moneyRange_iff {nValue : Int} :
    moneyRange nValue = true ↔ 0 ≤ nValue ∧ nValue ≤ maxMoney := by
  unfold moneyRange
  simp

theorem addValueOut_eq_some {sum nValue total : Int} : addValueOut sum nValue = some total ↔
      (0 ≤ nValue ∧ nValue ≤ maxMoney) ∧ (0 ≤ sum + nValue ∧
        sum + nValue ≤ maxMoney) ∧ total = sum + nValue := by
  unfold addValueOut
  rw [← moneyRange_iff, ← moneyRange_iff]
  split_ifs with h
  · rw [Bool.and_eq_true] at h
    simp only [h.1, h.2, true_and, Option.some.injEq]
    exact eq_comm
  · rw [Bool.and_eq_true] at h
    constructor
    · intro hnone
      cases hnone
    · rintro ⟨hvalue, hsum, _⟩
      exact absurd ⟨hvalue, hsum⟩ h

theorem foldlM_addValueOut : ∀ {vout : List CTxOut} {sum total : Int}, 0 ≤ sum → sum ≤ maxMoney →
    (vout.foldlM (fun sum out => addValueOut sum out.nValue) sum = some total ↔
      (∀ out ∈ vout, 0 ≤ out.nValue) ∧ sum + voutSum vout ≤ maxMoney ∧ total = sum + voutSum vout)
  | [], sum, total, hsum, hmax => by
    simp only [foldlM_nil, Option.pure_def, Option.some.injEq, voutSum,
      map_nil, sum_nil, not_mem_nil, false_imp_iff, implies_true,
      true_and, Int.add_zero, hmax]
    exact eq_comm
  | out :: vout, sum, total, hsum, hmax => by
    rw [foldlM_cons, Option.bind_eq_bind, Option.bind_eq_some_iff]
    constructor
    · rintro ⟨next, hadd, hrest⟩
      obtain ⟨hvalue, hnext, rfl⟩ := addValueOut_eq_some.mp hadd
      obtain ⟨hall, hle, htotal⟩ := (foldlM_addValueOut hnext.1 hnext.2).mp hrest
      rw [voutSum_cons]
      refine ⟨?_, by omega, by omega⟩
      intro x hx
      rcases mem_cons.mp hx with rfl | hx
      · exact hvalue.1
      · exact hall x hx
    · rintro ⟨hall, hle, htotal⟩
      rw [voutSum_cons] at hle htotal
      have hvalue := hall out mem_cons_self
      have hrest : ∀ x ∈ vout, 0 ≤ x.nValue := fun x hx =>
        hall x (mem_cons_of_mem out hx)
      have hpos : 0 ≤ voutSum vout := by
        apply sum_nonneg
        intro x hx
        obtain ⟨y, hy, rfl⟩ := mem_map.mp hx
        exact hrest y hy
      exact ⟨sum + out.nValue,
        addValueOut_eq_some.mpr ⟨⟨hvalue, by omega⟩, ⟨by omega, by omega⟩, rfl⟩,
        (foldlM_addValueOut (by omega) (by omega)).mpr ⟨hrest, by omega, by omega⟩⟩

theorem valueOut_eq_ok {tx : CTransaction} {nValueOut : Int} (h : valueOut tx = .ok nValueOut) :
    (∀ out ∈ tx.vout, 0 ≤ out.nValue) ∧ voutSum tx.vout ≤ maxMoney ∧
      voutSum tx.vout ≤ nValueOut := by
  unfold valueOut at h
  split at h
  · next value hvalue =>
    cases h
    unfold getValueOut at hvalue
    rw [Option.bind_eq_bind, Option.bind_eq_some_iff] at hvalue
    obtain ⟨sum, hsum, hshield⟩ := hvalue
    obtain ⟨hall, hle, rfl⟩ := (foldlM_addValueOut (le_refl 0) (by decide)).mp hsum
    rw [Int.zero_add] at hle hshield
    refine ⟨hall, hle, ?_⟩
    split_ifs at hshield
    · obtain ⟨hbalance, _, rfl⟩ := addValueOut_eq_some.mp hshield
      omega
    · exact (Option.some.inj hshield).le
  · cases h

def plainCoinbase (vout : List CTxOut) : CTransaction :=
  ⟨[⟨⟨0, COutPoint.nullIndex⟩, [], 0xffffffff⟩], vout, 2, transactionNormal, 0, ⟨0, [], [], []⟩, []⟩

theorem valueOut_plainCoinbase {vout : List CTxOut}
    (hall : ∀ out ∈ vout, 0 ≤ out.nValue) (hle : voutSum vout ≤ maxMoney) :
    valueOut (plainCoinbase vout) = .ok (voutSum vout) := by
  have hsum : (plainCoinbase vout).vout.foldlM
      (fun sum out => addValueOut sum out.nValue) 0 = some (voutSum vout) :=
    (foldlM_addValueOut (le_refl 0) (by decide)).mpr
      ⟨hall, by rwa [Int.zero_add], (Int.zero_add _).symm⟩
  have hvalue : (plainCoinbase vout).getValueOut = some (voutSum vout) := by
    unfold getValueOut
    rw [hsum]
    rfl
  unfold valueOut
  rw [hvalue]

/-! ## Expected payments -/

namespace PaymentsState

variable (st : PaymentsState) (blockSubsidy feeReward : Int) (checkSuperblock : Bool)

/-- The payments of `GetBlockTxOuts`. -/
def masternodePayments : List CTxOut :=
  match st.getBlockTxOuts blockSubsidy feeReward with
  | .ok (_, payments) => payments
  | .error _ => []

def superblockPayments : List CTxOut :=
  if st.isSuperblockTriggered then st.getBestSuperblock.elim [] fun superblock =>
      superblock.vecPayments.map CGovernancePayment.toTxOut
  else []

def expectedPayments : List CTxOut :=
  st.masternodePayments blockSubsidy feeReward ++ st.superblockPayments

def Accepted (coinbase : CTransaction) : Prop :=
  st.isBlockValueValid coinbase (blockSubsidy + feeReward) checkSuperblock = .ok () ∧
    st.isBlockPayeeValid coinbase blockSubsidy feeReward checkSuperblock = .ok true

/-- `GetBlockTxOuts` knows whom to pay. -/
def payeeKnown : Bool :=
  match st.getBlockTxOuts blockSubsidy feeReward with
  | .ok (found, _) => found
  | .error _ => false

def superblockChecked : Bool :=
  st.fGovernanceValid && st.fSuperblocksEnabled && checkSuperblock

def lookedForMasternode : List CTxOut :=
  if st.payeeKnown blockSubsidy feeReward then st.masternodePayments blockSubsidy feeReward else []

def lookedForSuperblock : List CTxOut :=
  if st.superblockChecked checkSuperblock then st.superblockPayments else []

/-- Every expected payment is looked for, and none can be taken for another:
the masternode payments differ from each other and from those of the
superblock, and those differ from the one before. -/
structure Distinguishable : Prop where
  payee : st.lookedForMasternode blockSubsidy feeReward
    = st.masternodePayments blockSubsidy feeReward
  superblock : st.lookedForSuperblock checkSuperblock = st.superblockPayments
  nodup : (st.masternodePayments blockSubsidy feeReward).Nodup
  disjoint : (st.masternodePayments blockSubsidy feeReward).Disjoint st.superblockPayments
  chain : st.superblockPayments.IsChain (· ≠ ·)

/-! ## What the checks look at -/

variable {st blockSubsidy feeReward checkSuperblock}
variable {coinbase coinbase' : CTransaction}

theorem require_eq_ok {condition : Bool} {reason : PaymentsError} :
    require condition reason = .ok () ↔ condition = true := by
  unfold require
  split_ifs with h <;> simp [h]

theorem isTransactionValid_eq_ok_true
    (henforced : st.params.dip0003EnforcementHeight ≤ st.nBlockHeight) :
    st.isTransactionValid coinbase blockSubsidy feeReward = .ok true ↔
      (∃ result, st.getBlockTxOuts blockSubsidy feeReward = .ok result) ∧
      st.lookedForMasternode blockSubsidy feeReward ⊆ coinbase.vout := by
  unfold isTransactionValid lookedForMasternode masternodePayments payeeKnown
  rw [if_neg (by omega)]
  cases hpayments : st.getBlockTxOuts blockSubsidy feeReward with
  | error e => simp
  | ok result =>
    obtain ⟨found, payments⟩ := result
    cases found with
    | false => simp
    | true =>
      simp only [ok_bind, if_true, ok.injEq, all_eq_true,
        any_eq_true, beq_iff_eq, exists_eq', true_and]
      constructor
      · intro h out hout
        obtain ⟨out', hmem, rfl⟩ := h out hout
        exact hmem
      · intro h out hout
        exact ⟨out, h hout, rfl⟩

theorem superblockIsValid_eq_ok_true {superblock : Trigger} {blockReward : Int} :
    st.superblockIsValid superblock coinbase blockReward = .ok true ↔
      isValidBlockHeight st.params.toParams st.nBlockHeight = true ∧
      superblock.vecPayments.length ≤ coinbase.vout.length ∧
      paymentsTotalAmount superblock ≤ st.paymentsLimit ∧
      ∃ nBlockValue, valueOut coinbase = .ok nBlockValue ∧
        nBlockValue ≤ blockReward + paymentsTotalAmount superblock ∧
        (superblock.vecPayments.map CGovernancePayment.toTxOut).destutter (· ≠ ·)
          <+ coinbase.vout := by
  unfold superblockIsValid
  split_ifs with hheight hlength hlimit
  · simp [hheight]
  · simp only [ok.injEq, Bool.false_eq_true, false_iff, not_and]
    omega
  · simp only [ok.injEq, Bool.false_eq_true, false_iff, not_and]
    omega
  · rw [bind_eq_ok_iff]
    simp only [hheight, not_lt.mp hlength, Int.not_lt.mp hlimit, true_and]
    refine exists_congr fun nBlockValue => and_congr Iff.rfl ?_
    split_ifs with hvalue
    · simp only [ok.injEq, Bool.false_eq_true, false_iff, not_and]
      omega
    · rw [ok.injEq, scan_iff]
      exact (and_iff_right (Int.not_lt.mp hvalue)).symm

variable {blockReward nValue nValue' : Int}

section

variable (hvalue : valueOut coinbase = .ok nValue) (hvalue' : valueOut coinbase' = .ok nValue')
include hvalue hvalue'

theorem isValidSuperblock_mono (hle : nValue' ≤ nValue)
    (hpays : ∀ superblock, st.getBestSuperblock = some superblock →
      superblock.vecPayments.length ≤ coinbase'.vout.length ∧
      (superblock.vecPayments.map CGovernancePayment.toTxOut).destutter (· ≠ ·) <+ coinbase'.vout)
    (h : st.isValidSuperblock coinbase blockReward = .ok true) :
    st.isValidSuperblock coinbase' blockReward = .ok true := by
  unfold isValidSuperblock at h ⊢
  cases hbest : st.getBestSuperblock with
  | none =>
    rw [hbest] at h
    cases h
  | some superblock =>
    rw [hbest] at h
    obtain ⟨hheight, _, hlimit, nBlockValue, hblock, hmax, _⟩ := superblockIsValid_eq_ok_true.mp h
    rw [hvalue] at hblock
    cases hblock
    obtain ⟨hlength, hsub⟩ := hpays superblock hbest
    exact superblockIsValid_eq_ok_true.mpr
      ⟨hheight, hlength, hlimit, nValue', hvalue', by omega, hsub⟩

theorem isBlockValueValid_mono (hle : nValue' ≤ nValue)
    (hsuperblock : st.superblockChecked checkSuperblock = true →
      st.isSuperblockTriggered = true → st.isValidSuperblock coinbase
      blockReward = .ok true → st.isValidSuperblock coinbase' blockReward = .ok true)
    (h : st.isBlockValueValid coinbase blockReward checkSuperblock = .ok ()) :
    st.isBlockValueValid coinbase' blockReward checkSuperblock = .ok () := by
  unfold isBlockValueValid at h ⊢
  rw [hvalue, ok_bind] at h
  rw [hvalue', ok_bind]
  by_cases hstart : st.nBlockHeight < st.params.nBudgetPaymentsStartBlock
  · rw [if_pos hstart, require_eq_ok, decide_eq_true_eq] at h ⊢
    omega
  rw [if_neg hstart] at h ⊢
  by_cases hbudget : st.nBlockHeight < st.params.nSuperblockStartBlock
  · rw [if_pos hbudget] at h ⊢
    unfold isOldBudgetBlockValueValid at h ⊢
    rw [hvalue, ok_bind] at h
    rw [hvalue', ok_bind]
    split_ifs at h ⊢ <;> simp only [require_eq_ok, decide_eq_true_eq] at h ⊢ <;> omega
  rw [if_neg hbudget] at h ⊢
  by_cases hheight : isValidBlockHeight st.params.toParams st.nBlockHeight = false
  · rw [if_pos hheight, require_eq_ok, decide_eq_true_eq] at h ⊢
    omega
  rw [if_neg hheight] at h ⊢
  by_cases hmax : blockReward + st.paymentsLimit < nValue
  · rw [if_pos hmax] at h
    cases h
  rw [if_neg (by omega)]
  split_ifs at h ⊢ with hsynced henabled hcheck htriggered
  · exact h
  · rw [require_eq_ok, decide_eq_true_eq] at h ⊢
    omega
  · exact h
  · rw [require_eq_ok, decide_eq_true_eq] at h ⊢
    omega
  · obtain ⟨valid, hvalid, hrequire⟩ := bind_eq_ok_iff.mp h
    obtain rfl := require_eq_ok.mp hrequire
    have hchecked : st.superblockChecked checkSuperblock = true := by
      unfold superblockChecked
      simp_all
    rw [hsuperblock hchecked (by simpa using htriggered) hvalid]
    rfl

end

theorem superblockStart_le_of_triggered (h : st.isSuperblockTriggered = true) :
    st.params.nSuperblockStartBlock ≤ st.nBlockHeight := by
  by_contra hearly
  unfold isSuperblockTriggered isValidBlockHeight at h
  rw [if_pos (by omega)] at h
  cases h

theorem isBlockPayeeValid_eq_ok_true (hsynced : st.fSynced = true) :
    st.isBlockPayeeValid coinbase blockSubsidy feeReward checkSuperblock = .ok true ↔
      st.isTransactionValid coinbase blockSubsidy feeReward = .ok true ∧
      (st.superblockChecked checkSuperblock = true → st.isSuperblockTriggered = true →
        st.isValidSuperblock coinbase (blockSubsidy + feeReward) = .ok true) := by
  unfold isBlockPayeeValid
  rw [bind_eq_ok_iff]
  constructor
  · rintro ⟨paid, hpaid, h⟩
    cases paid with
    | false => cases h
    | true =>
      refine ⟨hpaid, fun hchecked htriggered => ?_⟩
      have hstart := superblockStart_le_of_triggered htriggered
      unfold superblockChecked at hchecked
      simp only [Bool.and_eq_true] at hchecked
      simpa [hsynced, hchecked, htriggered, not_lt.mpr hstart] using h
  · rintro ⟨hpaid, hsuperblock⟩
    refine ⟨true, hpaid, ?_⟩
    unfold superblockChecked at hsuperblock
    simp only [hsynced]
    split_ifs with _ _ _ hcheck htriggered <;> simp_all

/-! ## Accepted coinbases -/

theorem Accepted.finds
    (henforced : st.params.dip0003EnforcementHeight ≤ st.nBlockHeight) (hsynced : st.fSynced = true)
    (h : st.Accepted blockSubsidy feeReward checkSuperblock coinbase) :
    st.lookedForMasternode blockSubsidy feeReward ⊆ coinbase.vout ∧
    (st.lookedForSuperblock checkSuperblock).destutter (· ≠ ·) <+ coinbase.vout := by
  obtain ⟨hpaid, hsuperblock⟩ := (isBlockPayeeValid_eq_ok_true hsynced).mp h.2
  refine ⟨((isTransactionValid_eq_ok_true henforced).mp hpaid).2, ?_⟩
  unfold lookedForSuperblock superblockPayments
  split_ifs with hchecked htriggered
  · have hvalid := hsuperblock hchecked htriggered
    unfold isValidSuperblock at hvalid
    cases hbest : st.getBestSuperblock with
    | none => simp
    | some superblock =>
      rw [hbest] at hvalid
      obtain ⟨_, _, _, _, _, _, hsub⟩ := superblockIsValid_eq_ok_true.mp hvalid
      exact hsub
  · simp
  · simp

theorem Accepted.of_cover
    (henforced : st.params.dip0003EnforcementHeight ≤ st.nBlockHeight) (hsynced : st.fSynced = true)
    (h : st.Accepted blockSubsidy feeReward checkSuperblock coinbase)
    {nValue nValue' : Int} (hvalue : valueOut coinbase = .ok nValue)
    (hvalue' : valueOut coinbase' = .ok nValue') (hle : nValue' ≤ nValue)
    (hmasternode : st.lookedForMasternode blockSubsidy feeReward ⊆ coinbase'.vout)
    (hlength : (st.lookedForSuperblock checkSuperblock).length ≤ coinbase'.vout.length)
    (hsub : (st.lookedForSuperblock checkSuperblock).destutter (· ≠ ·) <+ coinbase'.vout) :
    st.Accepted blockSubsidy feeReward checkSuperblock coinbase' := by
  obtain ⟨hpaid, hsuperblock⟩ := (isBlockPayeeValid_eq_ok_true hsynced).mp h.2
  have hmono : st.superblockChecked checkSuperblock = true → st.isSuperblockTriggered = true →
      st.isValidSuperblock coinbase (blockSubsidy + feeReward) = .ok true →
      st.isValidSuperblock coinbase' (blockSubsidy + feeReward) = .ok true := by
    intro hchecked htriggered hvalid
    refine isValidSuperblock_mono hvalue hvalue' hle ?_ hvalid
    intro superblock hbest
    unfold lookedForSuperblock superblockPayments at hlength hsub
    rw [if_pos hchecked, if_pos htriggered, hbest] at hlength hsub
    exact ⟨by simpa using hlength, hsub⟩
  refine ⟨isBlockValueValid_mono hvalue hvalue' hle hmono h.1,
    (isBlockPayeeValid_eq_ok_true hsynced).mpr ⟨?_, fun hchecked htriggered =>
      hmono hchecked htriggered (hsuperblock hchecked htriggered)⟩⟩
  exact (isTransactionValid_eq_ok_true henforced).mpr
    ⟨((isTransactionValid_eq_ok_true henforced).mp hpaid).1, hmasternode⟩

/-- An output of value zero that is none of these. -/
def filler (outs : List CTxOut) : CTxOut :=
  ⟨0, List.replicate ((outs.map fun out => out.scriptPubKey.length).sum + 1) 0⟩

theorem filler_not_mem (outs : List CTxOut) : filler outs ∉ outs := by
  intro hmem
  have hle : (filler outs).scriptPubKey.length
      ≤ (outs.map fun out => out.scriptPubKey.length).sum :=
    single_le_sum (fun _ _ => zero_le) _ (mem_map_of_mem hmem)
  unfold filler at hle
  rw [length_replicate] at hle
  omega

variable (st blockSubsidy feeReward checkSuperblock) in
/-- The fewest payments that are accepted, filled up to the number of
superblock payments. -/
def fewestPayments : List CTxOut :=
  Matching.cover (st.lookedForMasternode blockSubsidy feeReward)
      (st.lookedForSuperblock checkSuperblock)
    ++ List.replicate (st.lookedForSuperblock checkSuperblock).length
      (filler (st.expectedPayments blockSubsidy feeReward))

theorem voutSum_append (outs outs' : List CTxOut) :
    voutSum (outs ++ outs') = voutSum outs + voutSum outs' := by
  unfold voutSum
  rw [map_append, sum_append]

theorem voutSum_fewestPayments : voutSum (st.fewestPayments blockSubsidy feeReward checkSuperblock)
      = voutSum (cover (st.lookedForMasternode blockSubsidy feeReward)
        (st.lookedForSuperblock checkSuperblock)) := by
  have hzero : voutSum (replicate (st.lookedForSuperblock checkSuperblock).length
      (filler (st.expectedPayments blockSubsidy feeReward))) = 0 := by
    unfold voutSum
    rw [map_replicate, sum_replicate]
    exact nsmul_zero _
  unfold fewestPayments
  rw [voutSum_append, hzero, Int.add_zero]

theorem accepted_fewestPayments
    (henforced : st.params.dip0003EnforcementHeight ≤ st.nBlockHeight) (hsynced : st.fSynced = true)
    (h : st.Accepted blockSubsidy feeReward checkSuperblock coinbase) :
    st.Accepted blockSubsidy feeReward checkSuperblock
      (plainCoinbase (st.fewestPayments blockSubsidy feeReward checkSuperblock)) := by
  obtain ⟨hmasternode, hsuperblock⟩ := h.finds henforced hsynced
  obtain ⟨nValue, hvalue, _⟩ := bind_eq_ok_iff.mp h.1
  obtain ⟨hall, hmax, hle⟩ := valueOut_eq_ok hvalue
  have hcover := cover_subperm hmasternode hsuperblock
  have hsum : voutSum (st.fewestPayments blockSubsidy feeReward checkSuperblock)
      ≤ voutSum coinbase.vout := by
    obtain ⟨outs, hperm, hsub⟩ := hcover
    rw [voutSum_fewestPayments]
    unfold voutSum
    rw [← (hperm.map CTxOut.nValue).sum_eq]
    apply (hsub.map CTxOut.nValue).sum_le_sum
    intro x hx
    obtain ⟨out, hout, rfl⟩ := mem_map.mp hx
    exact hall out hout
  have hnonneg : ∀ out ∈ st.fewestPayments blockSubsidy feeReward checkSuperblock,
      0 ≤ out.nValue := by
    intro out hout
    rcases mem_append.mp hout with hmem | hmem
    · exact hall out (hcover.subset hmem)
    · rw [eq_of_mem_replicate hmem]
      exact le_refl 0
  refine h.of_cover henforced hsynced hvalue
    (valueOut_plainCoinbase hnonneg (by omega)) (by omega) ?_ ?_ ?_
  · exact fun out hout => mem_append_left _ (subset_cover _ _ hout)
  · show _ ≤ (st.fewestPayments blockSubsidy feeReward checkSuperblock).length
    unfold fewestPayments
    rw [length_append, length_replicate]
    omega
  · exact (destutter_sublist_cover _ _).trans (sublist_append_left _ _)

theorem not_subperm_fewestPayments
    (h : ¬st.Distinguishable blockSubsidy feeReward checkSuperblock) :
    ¬st.expectedPayments blockSubsidy feeReward
      <+~ st.fewestPayments blockSubsidy feeReward checkSuperblock := by
  have hlacks : ∃ out, (cover (st.lookedForMasternode blockSubsidy feeReward)
      (st.lookedForSuperblock checkSuperblock)).count out
        < (st.expectedPayments blockSubsidy feeReward).count out := by
    refine exists_count_cover_lt ?_ ?_ fun hall =>
      h ⟨hall.1, hall.2.1, hall.2.2.1, hall.2.2.2.1, hall.2.2.2.2⟩
    · unfold lookedForMasternode
      split_ifs
      · exact Sublist.refl _
      · exact nil_sublist _
    · unfold lookedForSuperblock
      split_ifs
      · exact Sublist.refl _
      · exact nil_sublist _
  intro hsubperm
  obtain ⟨out, hlt⟩ := hlacks
  have hmem : out ∈ st.expectedPayments blockSubsidy feeReward := count_pos_iff.mp (by omega)
  have hne : out ≠ filler (st.expectedPayments blockSubsidy feeReward) := by
    rintro rfl
    exact filler_not_mem _ hmem
  have hle := hsubperm.count_le out
  unfold fewestPayments at hle
  rw [count_append, count_replicate, if_neg (by simpa using hne.symm)] at hle
  omega

variable (st blockSubsidy feeReward checkSuperblock) in
/-- On a synced node that enforces masternode payments, every accepted
coinbase contains the expected payments as a multiset exactly when they are
all looked for and can be told apart, or when not even the coinbase with the fewest
payments is accepted, so that none is. -/
theorem accepted_pays_expected_iff
    (henforced : st.params.dip0003EnforcementHeight ≤ st.nBlockHeight)
    (hsynced : st.fSynced = true) :
    (∀ coinbase, st.Accepted blockSubsidy feeReward checkSuperblock coinbase →
      st.expectedPayments blockSubsidy feeReward <+~ coinbase.vout) ↔
    st.Distinguishable blockSubsidy feeReward checkSuperblock ∨
      ¬st.Accepted blockSubsidy feeReward checkSuperblock
        (plainCoinbase (st.fewestPayments blockSubsidy feeReward checkSuperblock)) := by
  constructor
  · intro hpays
    by_contra hnot
    push Not at hnot
    obtain ⟨hindistinct, haccepted⟩ := hnot
    exact not_subperm_fewestPayments hindistinct (hpays _ haccepted)
  · rintro (hdistinct | hnone) coinbase haccepted
    · obtain ⟨hmasternode, hsuperblock⟩ := haccepted.finds henforced hsynced
      rw [hdistinct.payee] at hmasternode
      rw [hdistinct.superblock] at hsuperblock
      exact subperm_append hdistinct.nodup hdistinct.disjoint
        hdistinct.chain hmasternode hsuperblock
    · exact absurd (accepted_fewestPayments henforced hsynced haccepted) hnone

def testNetPaymentParams : PaymentParams where
  toParams := testNetParams
  nBudgetPaymentsCycleBlocks := 21600
  nBudgetPaymentsWindowBlocks := 10
  dip0003EnforcementHeight := 50
  nMasternodePaymentsIncreaseBlock := 101
  nMasternodePaymentsIncreasePeriod := 262800
  brrHeight := 20000
  nBRRFixHeight := 27700
  nKSHv030Height := 90000
  nGovernanceMinQuorum := 1

def superblockState (vecPayments : List CGovernancePayment) : PaymentsState where
  params := testNetPaymentParams
  difficultyBase := fun _ _ => 0
  nBlockHeight := 43200
  fV20Active := true
  fMnRrActive := false
  allMNsCount := 1
  nWeightedMnCount := 1
  dmnPayee := some ⟨0, [1], []⟩
  fSynced := true
  fGovernanceValid := true
  fSuperblocksEnabled := true
  triggers := [⟨43200, vecPayments, 1, true⟩]

theorem accepted_pays_two_payments : (superblockState [⟨[2], 5⟩, ⟨[2], 6⟩]).Accepted 100 0 true
      (plainCoinbase [⟨30, [1]⟩, ⟨5, [2]⟩, ⟨7, [3]⟩, ⟨6, [2]⟩]) ∧
    (superblockState [⟨[2], 5⟩, ⟨[2], 6⟩]).expectedPayments 100 0
      <+~ [⟨30, [1]⟩, ⟨5, [2]⟩, ⟨7, [3]⟩, ⟨6, [2]⟩] := by
  have haccepted : (superblockState [⟨[2], 5⟩, ⟨[2], 6⟩]).Accepted 100 0 true
      (plainCoinbase [⟨30, [1]⟩, ⟨5, [2]⟩, ⟨7, [3]⟩, ⟨6, [2]⟩]) :=
    ⟨by decide +kernel, by decide +kernel⟩
  exact ⟨haccepted, (accepted_pays_expected_iff _ 100 0 true (by decide) rfl).mpr
    (.inl ⟨by decide, by decide, by decide, disjoint_left.mpr (by decide), by decide⟩) _ haccepted⟩

theorem accepted_pays_one_of_two : (superblockState [⟨[2], 5⟩, ⟨[2], 5⟩]).Accepted 100 0 true
      (plainCoinbase [⟨30, [1]⟩, ⟨5, [2]⟩]) ∧
    (superblockState [⟨[2], 5⟩, ⟨[2], 5⟩]).expectedPayments 100 0
      = [⟨30, [1]⟩, ⟨5, [2]⟩, ⟨5, [2]⟩] ∧
    ¬(superblockState [⟨[2], 5⟩, ⟨[2], 5⟩]).expectedPayments 100 0 <+~ [⟨30, [1]⟩, ⟨5, [2]⟩] := by
  refine ⟨⟨by decide +kernel, by decide +kernel⟩, by decide +kernel, ?_⟩
  intro hsubperm
  exact absurd hsubperm.length_le (by decide +kernel)

end PaymentsState

end KorshCore
