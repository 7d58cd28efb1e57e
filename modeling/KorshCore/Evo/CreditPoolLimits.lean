import KorshCore.Evo.CreditPoolIndexes

/-!
# The limits of the credit pool

The pool of every connected block: its limit lies between zero and the locked
amount, `latelyUnlocked` is what the blocks of the window unlocked, and no
window unlocks more than the limit of its time.
-/

namespace KorshCore

open Except CCreditPool List

namespace CreditPoolEnv

def windowUnlocked (env : CreditPoolEnv) (index : List CBlock) : Int :=
  ((index.take env.params.creditPoolPeriodBlocks).map env.blockUnlocked).sum

def leavingUnlocked (env : CreditPoolEnv) (index : List CBlock) : Int :=
  ((index.drop env.params.creditPoolPeriodBlocks).head?.map env.blockUnlocked).getD 0

variable {env : CreditPoolEnv}

variable (env) in
theorem windowUnlocked_cons (block : CBlock) (prev : List CBlock) :
    env.windowUnlocked (block :: prev) + env.leavingUnlocked (block :: prev)
      = env.blockUnlocked block + env.windowUnlocked prev := by
  have htake : ∀ (n : Nat) (list : List CBlock), ((list.take n).map env.blockUnlocked).sum
        + ((list.drop n).head?.map env.blockUnlocked).getD 0
        = ((list.take (n + 1)).map env.blockUnlocked).sum := by
    intro n list
    rw [take_add_one, head?_drop]
    cases list[n]? <;> simp
  rw [windowUnlocked, leavingUnlocked, htake, take_succ_cons, map_cons, sum_cons, windowUnlocked]

theorem windowUnlocked_nonneg (index : List CBlock) : 0 ≤ env.windowUnlocked index := by
  refine sum_nonneg ?_
  intro amount hmem
  obtain ⟨block, -, rfl⟩ := mem_map.mp hmem
  exact blockUnlocked_nonneg block

variable (env) in
theorem leavingUnlocked_nonneg (index : List CBlock) : 0 ≤ env.leavingUnlocked index := by
  unfold leavingUnlocked
  cases (index.drop env.params.creditPoolPeriodBlocks).head? with
  | none => exact le_rfl
  | some block => exact blockUnlocked_nonneg block

variable {index : List CBlock} {balance lately : Int}

theorem currentLimit_mem (hbalance : 0 ≤ balance) (hlately : 0 ≤ lately)
    (hhigh : env.v24ActiveAt index = false → env.withdrawalsActiveAt index =
      false → lately ≤ limitAmountHigh) : 0 ≤ env.currentLimit index balance lately ∧
      env.currentLimit index balance lately ≤ balance := by
  unfold currentLimit
  split_ifs with hv24 hwithdrawals hlow
  · omega
  · unfold limitAmountV22 coin
    omega
  · have := hhigh (by simpa using hv24) (by simpa using hwithdrawals)
    dsimp only
    omega
  · have := hhigh (by simpa using hv24) (by simpa using hwithdrawals)
    dsimp only
    omega

/-! ## The data of connected blocks -/

/-- What the pool reads of a block is what the block unlocks. -/
def CountsUnlocked (env : CreditPoolEnv) (index : List CBlock) : Prop :=
  ∃ data, env.getCreditDataFromBlock allReadable index = .ok data ∧
    (data.map (·.unlocked)).getD 0 = (index.head?.map env.blockUnlocked).getD 0

theorem exists_foldlM_blockDataStep : ∀ {txs : List CTransaction},
    (∀ tx ∈ txs, isAssetUnlock tx = true → ∃ data, env.getDataFromUnlockTx tx = .ok data) →
    ∀ blockData, ∃ blockData', txs.foldlM env.blockDataStep blockData = .ok blockData'
  | [], _, blockData => ⟨blockData, rfl⟩
  | tx :: txs, hdata, blockData => by
    have hstep : ∃ blockData₁, env.blockDataStep blockData tx = .ok blockData₁ := by
      unfold blockDataStep
      by_cases htx : isAssetUnlock tx = true
      · obtain ⟨⟨toUnlock, index⟩, hread⟩ := hdata tx mem_cons_self htx
        rw [if_neg (by simp [htx]), hread]
        exact ⟨_, rfl⟩
      · exact ⟨blockData, if_pos (by simpa using htx)⟩
    obtain ⟨blockData₁, hstep⟩ := hstep
    obtain ⟨blockData', hrest⟩ := exists_foldlM_blockDataStep
      (fun tx' hmem => hdata tx' (mem_cons_of_mem _ hmem)) blockData₁
    exact ⟨blockData', by rw [foldlM_cons, hstep]; exact hrest⟩

theorem exists_getCreditDataFromBlock {block : CBlock} {prev : List CBlock}
    (hdata : ∀ tx ∈ block.vtx, isAssetUnlock tx = true →
      ∃ data, env.getDataFromUnlockTx tx = .ok data) :
    ∃ data, env.getCreditDataFromBlock allReadable (block :: prev) = .ok data := by
  unfold getCreditDataFromBlock
  split_ifs with hactive
  · exact ⟨none, rfl⟩
  · simp only [allReadable, require, if_true, ok_bind]
    cases hvtx : block.vtx with
    | nil => exact ⟨none, rfl⟩
    | cons coinbase txs =>
      dsimp only
      split_ifs
      · exact ⟨none, rfl⟩
      · split
        · exact ⟨none, rfl⟩
        · rename_i cbTx hcbTx
          obtain ⟨blockData, hfold⟩ := exists_foldlM_blockDataStep hdata
            ⟨cbTx.creditPoolBalance, 0, []⟩
          rw [hvtx] at hfold
          exact ⟨some blockData, by rw [hfold]; rfl⟩

theorem blockUnlocked_eq_zero {block : CBlock} (h : ∀ tx ∈ block.vtx, isAssetUnlock tx = false) :
    env.blockUnlocked block = 0 := by
  refine sum_eq_zero ?_
  intro amount hmem
  obtain ⟨tx, htx, rfl⟩ := mem_map.mp hmem
  exact txUnlocked_of_not (h tx htx)

/-- Connecting a block under the rules of the pool: where v20 is active, the
payload of the coinbase is checked and so is the balance of the pool; before
that there are no asset unlocks. No unlock has the largest index, and v24
does not come before the withdrawals fork. -/
def FollowsPoolRules (env : CreditPoolEnv) : CreditOp → Prop
  | .connect _ fScriptChecks block prev =>
    (env.v20ActiveAt (block :: prev) = true →
      fScriptChecks = true ∧ env.dip0008ActiveAt (block :: prev) = true) ∧
    (env.v20ActiveAt (block :: prev) = false → ∀ tx ∈ block.vtx, isAssetUnlock tx = false) ∧
    CRangesSet.maxValue ∉ env.blockIndexes block ∧
    (env.v24ActiveAt (block :: prev) = true → env.withdrawalsActiveAt (block :: prev) = true)
  | _ => True

instance (env : CreditPoolEnv) : DecidablePred env.FollowsPoolRules
  | .connect _ fScriptChecks block prev => inferInstanceAs (Decidable
      ((env.v20ActiveAt (block :: prev) = true →
          fScriptChecks = true ∧ env.dip0008ActiveAt (block :: prev) = true) ∧
        (env.v20ActiveAt (block :: prev) = false → ∀ tx ∈ block.vtx, isAssetUnlock tx = false) ∧
        CRangesSet.maxValue ∉ env.blockIndexes block ∧
        (env.v24ActiveAt (block :: prev) = true → env.withdrawalsActiveAt (block :: prev) = true)))
  | .query _ _ => inferInstanceAs (Decidable True)
  | .forget _ _ => inferInstanceAs (Decidable True)

section Accept

variable {checks : BlockChecks} {fCheck : Bool} {block : CBlock} {prev : List CBlock}

theorem FollowsPoolRules.checksUnlocks
    (h : env.FollowsPoolRules (.connect checks fCheck block prev)) :
    env.ChecksUnlocks (.connect checks fCheck block prev) := by
  intro tx hmem htx
  have hv20 : env.v20ActiveAt (block :: prev) = true := by
    by_contra hv20
    rw [h.2.1 (by simpa using hv20) tx hmem] at htx
    cases htx
  exact ⟨(h.1 hv20).1, (h.1 hv20).2, hv20⟩

theorem Passed.exists_diffAfter (hpassed : env.Passed checks fCheck block prev)
    (hrules : env.FollowsPoolRules (.connect checks fCheck block prev))
    (hprev : prev ≠ []) (htxs : env.checkBlockTxs block prev = .ok ())
    (hdip3 : env.params.dip0003Height ≤ nHeight prev + 1)
    (hv20 : env.v20ActiveAt (block :: prev) = true) :
    ∃ coinbase txs cbTx pool platformReward diff, block.vtx = coinbase :: txs ∧
      isAssetUnlock coinbase = false ∧ coinbase.vExtraPayload ≠ [] ∧
      coinbase.isSpecialTxVersion = true ∧ env.cbTxPayload coinbase.vExtraPayload = some cbTx ∧
      env.creditPoolAt prev = .ok pool ∧ 0 ≤ platformReward ∧
      DiffAfter env pool platformReward txs diff ∧
      cbTx.creditPoolBalance = diff.getTotalLocked := by
  obtain ⟨rfl, hdip8⟩ := hrules.1 hv20
  obtain ⟨coinbase, txs, cbTx, hvtx, hpayload, hversion, hcbTx, hdiff⟩ :=
    hpassed.exists_payload hprev htxs hdip3
  obtain ⟨pool, hpool, hdiff⟩ := hdiff hdip8 hv20
  obtain ⟨platformReward, diff, hreward, hafter, hbalance⟩ := hdiff.exists_diffAfter
  obtain ⟨coinbase', txs', hvtx', hcoinbase, -⟩ := checkBlockTxs_ok htxs
  rw [hvtx] at hvtx'
  obtain ⟨rfl, rfl⟩ := hvtx'
  rw [CBlock.withoutCoinbase, hvtx] at hafter
  exact ⟨coinbase, txs, cbTx, pool, platformReward, diff, hvtx,
    hpassed.coinbase hvtx hcoinbase, hpayload, hversion, hcbTx, hpool, hreward,
    hafter, hbalance⟩

theorem DiffAfter.data_of_vtx {pool : CCreditPool} {platformReward : Int}
    {coinbase : CTransaction} {txs : List CTransaction} {diff : CCreditPoolDiff}
    (h : DiffAfter env pool platformReward txs diff)
    (hvtx : block.vtx = coinbase :: txs) (hcoinbase : isAssetUnlock coinbase = false)
    {tx : CTransaction} (hmem : tx ∈ block.vtx) (htx : isAssetUnlock tx = true) :
    ∃ data, env.getDataFromUnlockTx tx = .ok data := by
  rw [hvtx, mem_cons] at hmem
  rcases hmem with rfl | hmem
  · rw [hcoinbase] at htx
    cases htx
  · exact h.data tx hmem htx

theorem Passed.countsUnlocked (hpassed : env.Passed checks fCheck block prev)
    (hrules : env.FollowsPoolRules (.connect checks fCheck block prev))
    (hprev : prev ≠ []) (htxs : env.checkBlockTxs block prev = .ok ()) :
    env.CountsUnlocked (block :: prev) := by
  have hread : ∀ tx ∈ block.vtx, isAssetUnlock tx = true →
      ∃ data, env.getDataFromUnlockTx tx = .ok data := by
    intro tx hmem htx
    obtain ⟨-, -, hv20⟩ := hrules.checksUnlocks tx hmem htx
    obtain ⟨coinbase, txs, _, _, _, diff, hvtx, hcoinbase, -, -, -, -, -, hafter, -⟩ :=
      hpassed.exists_diffAfter hrules hprev htxs (hpassed.assetUnlock hmem htx).2 hv20
    exact hafter.data_of_vtx hvtx hcoinbase hmem htx
  obtain ⟨data, hdata⟩ : ∃ data,
      env.getCreditDataFromBlock allReadable (block :: prev) = .ok data :=
    exists_getCreditDataFromBlock hread
  refine ⟨data, hdata, ?_⟩
  cases data with
  | none =>
    have hnone := hpassed.no_unlocks hprev htxs
      (fun tx hmem htx => (hrules.checksUnlocks tx hmem htx).1) hdata
    simp [blockUnlocked_eq_zero hnone]
  | some data => simp [(getCreditDataFromBlock_some hdata).1]

end Accept

theorem distantUnlocked_eq (hcounts : ∀ n < index.length, env.CountsUnlocked (index.drop n)) :
    env.distantUnlocked allReadable index = .ok (env.leavingUnlocked index) := by
  unfold distantUnlocked leavingUnlocked
  split_ifs with hheight
  · by_cases hlength : env.params.creditPoolPeriodBlocks < index.length
    · obtain ⟨data, hdata, hunlocked⟩ := hcounts _ hlength
      rw [hdata]
      exact congrArg Except.ok hunlocked
    · -- only for an empty chain, whose height reads as zero
      have hnil : index.drop env.params.creditPoolPeriodBlocks = [] :=
        drop_eq_nil_iff.mpr (not_lt.mp hlength)
      rw [hnil]
      simp [getCreditDataFromBlock]
  · have hnil : index.drop env.params.creditPoolPeriodBlocks = [] := by
      refine drop_eq_nil_iff.mpr ?_
      unfold nHeight at hheight
      omega
    simp [hnil]

/-! ## The pool of a chain -/

structure PoolWithin (env : CreditPoolEnv) (index : List CBlock) (pool : CCreditPool) : Prop where
  pool_eq : env.creditPoolAt index = .ok pool
  limit_nonneg : 0 ≤ pool.currentLimit
  limit_le : pool.currentLimit ≤ pool.locked
  lately : pool.latelyUnlocked = env.windowUnlocked index
  high : env.withdrawalsActiveAt index = false → env.windowUnlocked index ≤ limitAmountHigh
  room_high : env.withdrawalsActiveAt index = false →
    pool.currentLimit ≤ limitAmountHigh - env.windowUnlocked index
  room_v24 : env.v24ActiveAt index = true →
    pool.currentLimit ≤ max 0 (limitAmountV24 - env.windowUnlocked index)

theorem poolWithin_empty (hpool : env.creditPoolAt index = .ok empty)
    (hwindow : env.windowUnlocked index = 0) : env.PoolWithin index empty where
  pool_eq := hpool
  limit_nonneg := le_rfl
  limit_le := le_rfl
  lately := hwindow.symm
  high _ := by rw [hwindow]; decide
  room_high _ := by rw [hwindow]; decide
  room_v24 _ := le_max_left _ _

theorem creditPoolAt_of_not_dip0003 : ∀ {index : List CBlock}, env.dip0003ActiveAt index = false →
    env.creditPoolAt index = .ok empty
  | [], _ => rfl
  | block :: prev, h => by
    have hprev : env.dip0003ActiveAt prev = false := by
      refine decide_eq_false ?_
      have hheight := of_decide_eq_false h
      simp only [nHeight, length_cons] at hheight ⊢
      omega
    by_cases hv20 : env.v20ActiveAt (block :: prev) = true
    · rw [creditPoolAt_cons hv20, creditPoolAt_of_not_dip0003 hprev, ok_bind,
        constructCreditPool, getCreditDataFromBlock, if_pos (by simp [h])]
      rfl
    · exact creditPoolAt_of_not_v20 (by simpa using hv20)

/-- The pool of a chain is within its limits, and so was every window that a
block with v24 behind it closed. -/
structure ChainWithin (env : CreditPoolEnv) (index : List CBlock) : Prop where
  distinct : env.DistinctIndexes index
  counts : ∀ n < index.length, env.CountsUnlocked (index.drop n)
  pool : ∃ pool, env.PoolWithin index pool
  v24 : ∀ block prev, index = block :: prev → 0 < env.blockUnlocked block →
    env.v24ActiveAt prev = true → env.windowUnlocked index ≤ limitAmountV24

section Within

variable {checks : BlockChecks} {fCheck : Bool} {block : CBlock} {prev : List CBlock}

theorem ChainWithin.windowUnlocked_eq_zero (hwithin : env.ChainWithin prev)
    (hprev : env.creditPoolAt prev = .ok empty) (hblock : env.blockUnlocked block = 0) :
    env.windowUnlocked (block :: prev) = 0 := by
  obtain ⟨pool, hpool⟩ := hwithin.pool
  have hempty := hpool.pool_eq
  rw [hprev, ok.injEq] at hempty
  have hlately := hpool.lately
  rw [← hempty] at hlately
  change (0 : Int) = env.windowUnlocked prev at hlately
  have hcons := windowUnlocked_cons env block prev
  have hleaving := leavingUnlocked_nonneg env (block :: prev)
  have hwindow : 0 ≤ env.windowUnlocked (block :: prev) := windowUnlocked_nonneg _
  omega

theorem constructCreditPool_eq {coinbase : CTransaction} {txs : List CTransaction}
    {cbTx : CCbTx} {pool : CCreditPool} {data : CreditPoolDataPerBlock}
    {indexes : CRangesSet} {leaving : Int} (hactive : env.dip0003ActiveAt (block :: prev) = true)
    (hvtx : block.vtx = coinbase :: txs) (hpayload : coinbase.vExtraPayload ≠ [])
    (hversion : coinbase.isSpecialTxVersion = true)
    (hcbTx : env.cbTxPayload coinbase.vExtraPayload = some cbTx)
    (hdata : block.vtx.foldlM env.blockDataStep ⟨cbTx.creditPoolBalance, 0, []⟩ = .ok data)
    (hindexes : (env.traversal data.indexes).foldlM addIndexStep pool.indexes = .ok indexes)
    (hleaving : env.distantUnlocked allReadable (block :: prev) = .ok leaving)
    (hlimit : 0 ≤ env.currentLimit (block :: prev) data.creditPool
      (pool.latelyUnlocked + data.unlocked - leaving)) :
    env.constructCreditPool allReadable (block :: prev) pool
      = .ok ⟨data.creditPool, env.currentLimit (block :: prev) data.creditPool
          (pool.latelyUnlocked + data.unlocked - leaving),
          pool.latelyUnlocked + data.unlocked - leaving, indexes⟩ := by
  have hempty : coinbase.vExtraPayload.isEmpty = false := by
    simpa [List.isEmpty_iff] using hpayload
  have hread : env.getCreditDataFromBlock allReadable (block :: prev) = .ok (some data) := by
    rw [hvtx] at hdata
    simp [getCreditDataFromBlock, hactive, hvtx, hempty, hversion, hcbTx,
      allReadable, require, hdata]
  rw [constructCreditPool, hread]
  simp only [ok_bind, hindexes, hleaving]
  exact if_neg (Int.not_lt.mpr hlimit)

theorem PoolWithin.accept {pool : CCreditPool} (hpool : env.PoolWithin prev pool)
    (hdistinct : env.DistinctIndexes prev)
    (hcounts : ∀ n < (block :: prev).length, env.CountsUnlocked ((block :: prev).drop n))
    (hpassed : env.Passed checks fCheck block prev)
    (hrules : env.FollowsPoolRules (.connect checks fCheck block prev))
    (hprev : prev ≠ []) (htxs : env.checkBlockTxs block prev = .ok ())
    (hdip3 : env.params.dip0003Height ≤ nHeight prev + 1)
    (hv20 : env.v20ActiveAt (block :: prev) = true) : env.blockUnlocked block ≤ pool.currentLimit ∧
      ∃ pool', env.PoolWithin (block :: prev) pool' := by
  obtain ⟨coinbase, txs, cbTx, pool₁, platformReward, diff, hvtx, hcoinbase, hpayload,
    hversion, hcbTx, hpool₁, hreward, hafter, hbalance⟩ :=
    hpassed.exists_diffAfter hrules hprev htxs hdip3 hv20
  rw [hpool.pool_eq, ok.injEq] at hpool₁
  subst hpool₁
  -- what the block unlocks was allowed by the pool before
  have hunlocked : env.blockUnlocked block = diff.sessionUnlocked := by
    simp [blockUnlocked, hvtx, hafter.sessionUnlocked, txUnlocked_of_not hcoinbase]
  have hallowed : env.blockUnlocked block ≤ pool.currentLimit :=
    hunlocked ▸ hafter.limit hpool.limit_nonneg
  refine ⟨hallowed, ?_⟩
  -- the data of the block
  obtain ⟨data, hdata⟩ := exists_foldlM_blockDataStep
    (fun tx hmem htx => hafter.data_of_vtx hvtx hcoinbase hmem htx)
    ⟨cbTx.creditPoolBalance, 0, []⟩
  obtain ⟨hdataPool, hdataUnlocked, hdataNodup, hdataIndexes⟩ := foldlM_blockDataStep hdata
  change data.unlocked = env.blockUnlocked block at hdataUnlocked
  -- its indexes are new
  obtain ⟨-, hnew⟩ := hpassed.new_indexes hprev htxs hrules.checksUnlocks hdistinct
  obtain ⟨hcanonical, hmem⟩ := hdistinct.pool pool hpool.pool_eq
  have hperm := env.traversal_perm data.indexes
  obtain ⟨indexes, hindexes, -, -⟩ := foldlM_addIndexStep (hperm.nodup_iff.mpr hdataNodup)
    (fun h => hrules.2.2.1 ((hdataIndexes _).mp (hperm.mem_iff.mp h))) hcanonical
    (fun i hi hold => hnew i ((hdataIndexes i).mp (hperm.mem_iff.mp hi)) ((hmem i).mp hold))
  -- the window moves on
  have hleaving := distantUnlocked_eq hcounts
  have hcons := windowUnlocked_cons env block prev
  have hleavingNonneg := leavingUnlocked_nonneg env (block :: prev)
  have hlately : pool.latelyUnlocked + data.unlocked
      - env.leavingUnlocked (block :: prev) = env.windowUnlocked (block :: prev) := by
    rw [hpool.lately]
    omega
  have hbalanceNonneg : 0 ≤ data.creditPool := by
    have hlocked := hafter.sessionLocked
    have hlimit := hpool.limit_le
    rw [hdataPool, hbalance, CCreditPoolDiff.getTotalLocked, hafter.pool_eq,
      hafter.platformReward_eq]
    omega
  -- the limit of the time
  have hwithdrawals : env.withdrawalsActiveAt (block :: prev) = false →
      env.windowUnlocked (block :: prev) ≤ limitAmountHigh := by
    intro hinactive
    have hinactive' : env.withdrawalsActiveAt prev = false := by
      refine decide_eq_false ?_
      have hheight := of_decide_eq_false hinactive
      rw [nHeight_cons hprev] at hheight
      omega
    have hroom := hpool.room_high hinactive'
    omega
  have hlimit := currentLimit_mem hbalanceNonneg (windowUnlocked_nonneg (block :: prev))
    (fun _ => hwithdrawals)
  have hconstruct := constructCreditPool_eq
    (decide_eq_true (by rw [nHeight_cons hprev]; exact hdip3)) hvtx hpayload hversion
    hcbTx hdata hindexes hleaving (by rw [hlately]; exact hlimit.1)
  rw [hlately] at hconstruct
  have hat := creditPoolAt_cons hv20
  rw [hpool.pool_eq, ok_bind, hconstruct] at hat
  refine ⟨_, hat, hlimit.1, hlimit.2, rfl, hwithdrawals, ?_, ?_⟩
  · intro hinactive
    have hv24 : env.v24ActiveAt (block :: prev) = false := by
      by_contra hv24
      rw [hrules.2.2.2 (by simpa using hv24)] at hinactive
      cases hinactive
    simp only [currentLimit, hv24, hinactive, Bool.false_eq_true, if_false]
    exact min_le_right _ _
  · intro hv24
    simp only [currentLimit, hv24, if_true]
    omega

theorem ChainWithin.accept (hwithin : env.ChainWithin prev)
    (hpassed : env.Passed checks fCheck block prev)
    (hrules : env.FollowsPoolRules (.connect checks fCheck block prev))
    (hprev : prev ≠ []) (htxs : env.checkBlockTxs block prev = .ok ()) :
    env.ChainWithin (block :: prev) := by
  have hcounts : ∀ n < (block :: prev).length, env.CountsUnlocked ((block :: prev).drop n) := by
    intro n hn
    cases n with
    | zero => exact hpassed.countsUnlocked hrules hprev htxs
    | succ n => exact hwithin.counts n (Nat.lt_of_succ_lt_succ hn)
  have hdistinct := hwithin.distinct.accept hpassed hprev htxs hrules.checksUnlocks hrules.2.2.1
  -- a block that unlocks nothing where there was no pool
  have hquiet : env.creditPoolAt prev = .ok empty → env.creditPoolAt (block :: prev) = .ok empty →
      env.blockUnlocked block = 0 → env.ChainWithin (block :: prev) := by
    intro hbefore hafter hblock
    refine ⟨hdistinct, hcounts, ⟨_, poolWithin_empty hafter
      (hwithin.windowUnlocked_eq_zero hbefore hblock)⟩, ?_⟩
    intro block' prev' heq hpos
    cases heq
    omega
  by_cases hv20 : env.v20ActiveAt (block :: prev) = true
  · by_cases hdip3 : env.params.dip0003Height ≤ nHeight prev + 1
    · obtain ⟨pool, hpool⟩ := hwithin.pool
      obtain ⟨hallowed, hpool'⟩ := hpool.accept hwithin.distinct hcounts hpassed hrules
        hprev htxs hdip3 hv20
      refine ⟨hdistinct, hcounts, hpool', ?_⟩
      intro block' prev' heq hpos hv24
      cases heq
      have hroom := hpool.room_v24 hv24
      have hcons := windowUnlocked_cons env block prev
      have hleaving := leavingUnlocked_nonneg env (block :: prev)
      omega
    · have hinactive : env.dip0003ActiveAt (block :: prev) = false :=
        decide_eq_false (by rw [nHeight_cons hprev]; exact hdip3)
      have hinactive' : env.dip0003ActiveAt prev = false := decide_eq_false (by omega)
      refine hquiet (creditPoolAt_of_not_dip0003 hinactive')
        (creditPoolAt_of_not_dip0003 hinactive) (blockUnlocked_eq_zero fun tx hmem => ?_)
      by_contra htx
      exact hdip3 (hpassed.assetUnlock hmem (by simpa using htx)).2
  · have hinactive : env.v20ActiveAt (block :: prev) = false := by simpa using hv20
    have hinactive' : env.v20ActiveAt prev = false := by
      have hheight := of_decide_eq_false hinactive
      rw [nHeight_cons hprev] at hheight
      exact decide_eq_false (by omega)
    exact hquiet (creditPoolAt_of_not_v20 hinactive') (creditPoolAt_of_not_v20 hinactive)
      (blockUnlocked_eq_zero (hrules.2.1 hinactive))

theorem chainWithin_genesis : env.ChainWithin [env.genesis] := by
  have hblock : env.blockUnlocked env.genesis = 0 :=
    blockUnlocked_eq_zero fun _ => not_isAssetUnlock_genesis
  have hwindow : env.windowUnlocked [env.genesis] = 0 := by
    unfold windowUnlocked
    cases env.params.creditPoolPeriodBlocks <;> simp [hblock]
  refine ⟨distinctIndexes_genesis, ?_, ⟨_, poolWithin_empty creditPoolAt_genesis hwindow⟩, ?_⟩
  · intro n hn
    obtain rfl : n = 0 := by simpa using hn
    exact ⟨none, getCreditDataFromBlock_genesis, by simp [hblock]⟩
  · intro block prev heq hpos
    cases heq
    omega

end Within

/-! ## The main result -/

/-- In every run under the rules of the pool, `GetCreditPool` finds a pool for
every connected block, whatever is cached; its limit is between zero and the
locked amount; `latelyUnlocked` is what the window unlocked; and the window is
within the limits. -/
theorem getCreditPool_within {ops : List CreditOp} {node : CreditNode}
    (hrules : ∀ op ∈ ops, env.FollowsPoolRules op)
    (h : env.run ops = .ok node) {index : List CBlock} (hindex : index ∈ node.accepted) :
    ∃ pool m, env.getCreditPool allReadable index node.manager = .ok (pool, m) ∧
      0 ≤ pool.currentLimit ∧ pool.currentLimit ≤ pool.locked ∧
      pool.latelyUnlocked = env.windowUnlocked index ∧
      (env.withdrawalsActiveAt index = false → env.windowUnlocked index ≤ limitAmountHigh) ∧
      ∀ block prev, index = block :: prev → 0 < env.blockUnlocked block →
        env.v24ActiveAt prev = true → env.windowUnlocked index ≤ limitAmountV24 := by
  obtain ⟨hnode, -, hall⟩ := run_invariant (P := env.ChainWithin) chainWithin_genesis
    (fun checks fCheck block prev hop hne hprev htxs hpassed =>
      hprev.accept hpassed hop hne htxs) hrules h
  have hwithin := hall index hindex
  obtain ⟨pool, hpool⟩ := hwithin.pool
  obtain ⟨m, hget⟩ := hnode.exists_getCreditPool hindex hpool.pool_eq
  exact ⟨pool, m, hget, hpool.limit_nonneg, hpool.limit_le, hpool.lately, hpool.high, hwithin.v24⟩

end CreditPoolEnv

theorem getCreditPool_within_unlockRun : (∀ op ∈ unlockRun 5 6, samplePoolEnv.FollowsPoolRules op) ∧
    ∃ node, samplePoolEnv.run (unlockRun 5 6) = .ok node ∧
    ∃ index ∈ node.accepted, samplePoolEnv.windowUnlocked index = 2000 ∧
    ∃ pool m, samplePoolEnv.getCreditPool allReadable index node.manager = .ok (pool, m) ∧
      0 ≤ pool.currentLimit ∧ pool.currentLimit ≤ pool.locked ∧
      pool.latelyUnlocked = samplePoolEnv.windowUnlocked index ∧
      (samplePoolEnv.withdrawalsActiveAt index = false →
        samplePoolEnv.windowUnlocked index ≤ limitAmountHigh) ∧
      ∀ block prev, index = block :: prev → 0 < samplePoolEnv.blockUnlocked block →
        samplePoolEnv.v24ActiveAt prev = true →
        samplePoolEnv.windowUnlocked index ≤ limitAmountV24 := by
  have hrules : ∀ op ∈ unlockRun 5 6, samplePoolEnv.FollowsPoolRules op := by
    decide +kernel
  have hmem : [unlockBlock 3 3 96 6, unlockBlock 2 2 98 5, lockBlock, ⟨0, []⟩]
      ∈ acceptedChains samplePoolEnv (unlockRun 5 6) := by decide +kernel
  obtain ⟨node, hrun, haccepted⟩ := mem_accepted_of_acceptedChains hmem
  exact ⟨hrules, node, hrun, _, haccepted, by decide +kernel,
    CreditPoolEnv.getCreditPool_within hrules hrun haccepted⟩

/-- What `GetCreditPool` gives for a block after a run. -/
def poolAfter (env : CreditPoolEnv) (ops : List CreditOp) (index : List CBlock) :
    Except PoolError CCreditPool := do
  let node ← env.run ops
  let (pool, _) ← env.getCreditPool allReadable index node.manager
  .ok pool

def earlyPoolEnv : CreditPoolEnv :=
  { samplePoolEnv with params := { samplePoolEnv.params with v20Height := 9 } }

def earlyBlock : CBlock := ⟨1, [sampleCoinbase [1], sampleUnlock 5]⟩

def earlyRun : List CreditOp := [.connect sampleChecks true earlyBlock [⟨0, []⟩]]

def reuseChain : List CBlock :=
  [unlockBlock 3 3 96 254, unlockBlock 2 2 98 255, lockBlock, ⟨0, []⟩]

/-- The pool of a block that reuses the largest index cannot be constructed:
an assertion fails. And before v20 a block can unlock funds that no pool
counts. -/
theorem getCreditPool_not_within : (reuseChain ∈ acceptedChains samplePoolEnv (unlockRun 255 254) ∧
      poolAfter samplePoolEnv (unlockRun 255 254) reuseChain = .error .assertion) ∧
    [earlyBlock, ⟨0, []⟩] ∈ acceptedChains earlyPoolEnv earlyRun ∧
    earlyPoolEnv.windowUnlocked [earlyBlock, ⟨0, []⟩] = 1000 ∧
    poolAfter earlyPoolEnv earlyRun [earlyBlock, ⟨0, []⟩] = .ok CCreditPool.empty := by
  decide +kernel

end KorshCore
